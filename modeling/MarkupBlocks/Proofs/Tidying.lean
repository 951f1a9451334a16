/-
Layout between siblings means nothing.

To tidy a tree is to strip the texts among siblings and to drop those of which nothing is left,
at every depth. Only one thing hangs on a text that is dropped: an element that has any content,
be it layout, assigns its content, and one that has none does not. So an element that would lose
all of its content keeps an empty text. A tidy tree is entered at the same places as the tree and
comes upon the same faults, and it has the same outline. What it reports differs, since the
children of an element are counted with their layout.
-/

import MarkupBlocks.Proofs.Contexts
import MarkupBlocks.Proofs.Decisions
import MarkupBlocks.Proofs.Layout

namespace MarkupBlocks

/-- What is put in place of content of which nothing is left: one empty text. -/
def contentFiller (children : List Node) : List Node :=
  if (Children.content (Siblings.significant children)).isEmpty &&
      !(Children.content children).isEmpty then [.leaf (.text "")]
  else []

/-- Children without their layout. -/
def tidyChildren (children : List Node) : List Node :=
  Siblings.significant children ++ contentFiller children

/-- An element without the layout among its children. -/
def Element.tidied (element : Element) : Element :=
  { element with children := tidyChildren element.children }

/-- A tree without the layout among the children of its elements, at every depth. -/
def Node.tidy (node : Node) : Node :=
  node.rewrite Element.tidied

/-- A document without its layout. -/
def tidy (nodes : List Node) : List Node :=
  Siblings.significant (nodes.map Node.tidy)

/-! ### Siblings that mean something -/

theorem Node.eq_text_of_significant?_eq_none {node : Node} (dropped : node.significant? = none) :
    ∃ text, node = .leaf (.text text) := by
  unfold Node.significant? at dropped
  split at dropped
  · next text => exact ⟨text, rfl⟩
  · exact absurd dropped nofun

theorem Node.significant?_text_of_empty {text : String} (empty : Text.stripLayout text = "") :
    (Node.leaf (.text text)).significant? = none := by
  rw [Node.significant?, empty]
  rfl

theorem Node.payload?_of_significant? {node kept : Node} (survives : node.significant? = some kept)
    (control : Control) : kept.payload? control = node.payload? control := by
  rcases Node.significant?_eq_some survives with ⟨text, rfl, rfl⟩ | ⟨rfl, -⟩
  · rfl
  · rfl

/-- What is left of a sibling is stripped already. -/
theorem Node.significant?_of_significant? {node kept : Node}
    (survives : node.significant? = some kept) : kept.significant? = some kept := by
  rcases Node.significant?_eq_some survives with ⟨text, rfl, rfl⟩ | ⟨rfl, -⟩
  · unfold Node.significant? at survives ⊢
    simp only [Text.stripLayout_stripLayout] at survives ⊢
    exact survives
  · exact survives

namespace Siblings

theorem significant_significant (nodes : List Node) :
    significant (significant nodes) = significant nodes := by
  rw [significant, significant, List.filterMap_filterMap]
  refine List.filterMap_congr fun node _ => ?_
  cases survives : node.significant? with
  | none => rfl
  | some kept => exact Node.significant?_of_significant? survives

theorem content_significant (children : List Node) :
    Children.content (significant children) = significant (Children.content children) := by
  rw [Children.content, Children.content, significant, significant, List.filter_filterMap,
    List.filterMap_filter]
  refine List.filterMap_congr fun child _ => ?_
  cases survives : child.significant? with
  | none => exact (ite_self none).symm
  | some kept =>
    rw [Option.filter_some, Node.payload?_of_significant? survives]

/-- What texts say nothing about is not changed by dropping some of them. -/
theorem flatMap_significant {Member : Type} {tell : Node → List Member}
    (silent : ∀ text, tell (.leaf (.text text)) = []) (nodes : List Node) :
    (significant nodes).flatMap tell = nodes.flatMap tell := by
  induction nodes with
  | nil => rfl
  | cons node rest inductionHypothesis =>
    unfold significant at inductionHypothesis ⊢
    rw [List.filterMap_cons, List.flatMap_cons]
    split
    · next dropped =>
      obtain ⟨text, rfl⟩ := Node.eq_text_of_significant?_eq_none dropped
      rw [silent, List.nil_append, inductionHypothesis]
    · next kept survives =>
      rw [List.flatMap_cons, inductionHypothesis]
      rcases Node.significant?_eq_some survives with ⟨text, rfl, rfl⟩ | ⟨rfl, -⟩
      · rw [silent, silent]
      · rfl

end Siblings

/-! ### Children -/

section Children

variable (children : List Node)

/-- The filler is a text, so all that texts say nothing about is silent about it. -/
theorem flatMap_contentFiller {Member : Type} {tell : Node → List Member}
    (silent : ∀ text, tell (.leaf (.text text)) = []) :
    (contentFiller children).flatMap tell = [] := by
  unfold contentFiller
  split
  · rw [List.flatMap_singleton, silent]
  · rfl

theorem content_contentFiller : Children.content (contentFiller children) =
    contentFiller children := by
  unfold contentFiller
  split
  · rfl
  · rfl

theorem significant_contentFiller : Siblings.significant (contentFiller children) = [] := by
  unfold contentFiller
  split
  · exact List.filterMap_cons_none (Node.significant?_text_of_empty (by decide))
  · rfl

theorem flatMap_tidyChildren {Member : Type} {tell : Node → List Member}
    (silent : ∀ text, tell (.leaf (.text text)) = []) :
    (tidyChildren children).flatMap tell = children.flatMap tell := by
  rw [tidyChildren, List.flatMap_append, Siblings.flatMap_significant silent,
    flatMap_contentFiller children silent, List.append_nil]

theorem routed_tidyChildren :
    Children.routed (tidyChildren children) = Children.routed children := by
  rw [Children.routed, Children.routed, List.filterMap_eq_flatMap_toList,
    List.filterMap_eq_flatMap_toList]
  exact congrArg _ (flatMap_tidyChildren children fun _ => rfl)

theorem content_tidyChildren :
    Children.content (tidyChildren children) =
      Siblings.significant (Children.content children) ++ contentFiller children := by
  rw [tidyChildren, Children.content, List.filter_append]
  exact congrArg₂ _ (Siblings.content_significant children) (content_contentFiller children)

theorem significant_content_tidyChildren :
    Siblings.significant (Children.content (tidyChildren children)) =
      Siblings.significant (Children.content children) := by
  rw [content_tidyChildren, Siblings.significant_append, Siblings.significant_significant,
    significant_contentFiller, List.append_nil]

/-- There is content before exactly when there is afterwards. -/
theorem content_tidyChildren_isEmpty :
    (Children.content (tidyChildren children)).isEmpty = (Children.content children).isEmpty := by
  rw [content_tidyChildren, contentFiller, Siblings.content_significant]
  cases content : (Children.content children).isEmpty with
  | true =>
    rw [List.isEmpty_iff.mp content]
    rfl
  | false =>
    split
    · exact List.isEmpty_eq_false_iff.mpr
        (List.append_ne_nil_of_right_ne_nil _ (List.cons_ne_nil _ _))
    · next remains =>
      rw [List.append_nil]
      exact Bool.eq_false_iff.mpr fun lost => remains (by rw [lost]; rfl)

theorem sameChildren_tidyChildren : SameChildren children (tidyChildren children) where
  paths := (flatMap_tidyChildren children fun _ => rfl).symm
  routed := (routed_tidyChildren children).symm
  content := (significant_content_tidyChildren children).symm
  isEmpty := (content_tidyChildren_isEmpty children).symm

end Children

/-! ### Documents -/

theorem Element.prop?_tidied (element : Element) (control : Control) :
    element.tidied.prop? control.name = element.prop? control.name := rfl

theorem siblingsAgree_tidy (nodes : List Node) :
    (Comparison.upTo Step.decides).SiblingsAgree (Siblings.significant nodes)
      (Siblings.significant (tidy nodes)) := by
  have unnoticed (root : Element) :
      (Comparison.upTo Step.decides).Agree (.element root) (.element root.tidied) :=
    root.agree_of_sameChildren (sameChildren_tidyChildren root.children)
  rw [tidy, Siblings.significant_significant]
  exact siblingsAgree_rewrite Element.prop?_tidied unnoticed nodes

/-! ### Layout goes without a trace -/

section Insertion

variable {text : String} (layout : Text.IsLayout text)

include layout

theorem Siblings.significant_insert_layout (before after : List Node) :
    significant (before ++ .leaf (.text text) :: after) = significant (before ++ after) := by
  have dropped : (Node.leaf (.text text)).significant? = none :=
    Node.significant?_text_of_empty (Text.stripLayout_of_isLayout layout)
  rw [significant_append, significant_append]
  exact congrArg _ (List.filterMap_cons_none dropped)

theorem tidy_insert_layout (before after : List Node) :
    tidy (before ++ .leaf (.text text) :: after) = tidy (before ++ after) := by
  rw [tidy, tidy, List.map_append, List.map_append, List.map_cons, Node.tidy, Node.rewrite_leaf,
    Siblings.significant_insert_layout layout]

/-- Layout among children goes without a trace when there is other content. -/
theorem tidyChildren_insert_layout {before after : List Node}
    (content : (Children.content (before ++ after)).isEmpty = false) :
    tidyChildren (before ++ .leaf (.text text) :: after) = tidyChildren (before ++ after) := by
  have more : (Children.content (before ++ .leaf (.text text) :: after)).isEmpty = false :=
    List.isEmpty_eq_false_iff.mpr (List.ne_nil_of_mem (Children.mem_content_iff.mpr
      ⟨List.mem_append_right before List.mem_cons_self, rfl⟩))
  rw [tidyChildren, tidyChildren, contentFiller, contentFiller, content, more,
    Siblings.significant_insert_layout layout]

theorem Node.tidy_insert_layout (element : Element) {before after : List Node} {child : Node}
    (present : child ∈ before ++ after) (unrouted : child.payload? .path = none) :
    (Node.element { element with children := before ++ .leaf (.text text) :: after }).tidy =
      (Node.element { element with children := before ++ after }).tidy := by
  have alike := forall₂_rewrite Element.tidied (before ++ after)
  have content : (Children.content ((before ++ after).map (Node.rewrite Element.tidied))).isEmpty =
      false := by
    rw [← (correspondence_rewrite Element.prop?_tidied).content_isEmpty_eq alike]
    exact List.isEmpty_eq_false_iff.mpr
      (List.ne_nil_of_mem (Children.mem_content_iff.mpr ⟨present, unrouted⟩))
  rw [List.map_append] at content
  rw [tidy, tidy, rewrite_element, rewrite_element]
  simp only [Element.tidied, Element.rewriteParts, List.map_append, List.map_cons, rewrite_leaf,
    tidyChildren_insert_layout layout content]

end Insertion

/-- Layout means nothing. A tidy document renders to the text or to the fault that the document
renders to, under any limit and at any indentation, and so do any two documents that are tidied to
the same. So layout may stand anywhere among the siblings of a document, and anywhere among the
children of an element, at any depth, that has other content. -/
theorem render_tidy (settings : Settings) :
    (∀ nodes, (settings.render (tidy nodes)).result = (settings.render nodes).result) ∧
      (∀ left right, tidy left = tidy right →
        (settings.render left).result = (settings.render right).result) ∧
      (∀ text, Text.IsLayout text → ∀ before after,
        (settings.render (before ++ .leaf (.text text) :: after)).result =
          (settings.render (before ++ after)).result) ∧
      ∀ text, Text.IsLayout text → ∀ (element : Element) (inner outer : List Node),
        (∃ child ∈ inner ++ outer, child.payload? .path = none) →
        ∀ (context : Context) (before after : List Node),
          (settings.render (before ++ context.fill (.element
            { element with children := inner ++ .leaf (.text text) :: outer }) :: after)).result =
          (settings.render (before ++ context.fill (.element
            { element with children := inner ++ outer }) :: after)).result := by
  have whole (nodes : List Node) :
      (settings.render (tidy nodes)).result = (settings.render nodes).result :=
    (render_result_eq_of_agree (siblingsAgree_tidy nodes) settings).symm
  have alike (left right : List Node) (same : tidy left = tidy right) :
      (settings.render left).result = (settings.render right).result := by
    rw [← whole left, ← whole right, same]
  refine ⟨whole, alike, fun text layout before after => ?_,
    fun text layout element inner outer content context before after => alike _ _ ?_⟩
  · exact alike _ _ (tidy_insert_layout layout before after)
  · obtain ⟨child, present, unrouted⟩ := content
    have filled := context.rewrite_fill (Node.tidy_insert_layout layout element present unrouted)
    rw [tidy, tidy, List.map_append, List.map_append, List.map_cons, List.map_cons]
    exact congrArg (fun node => Siblings.significant (_ ++ node :: _)) filled

/-- An element in a property: its only content is layout, so it assigns an empty text, and more
layout before its routed child and between two siblings of the document changes nothing. -/
theorem render_tidy_layout_only :
    let layout := Node.leaf (.text "\n\u2028 ")
    let routed := Node.element ⟨"b", [("@path", .leaf (.literal "p"))], [], true⟩
    let element : Element := ⟨"a", [], [routed, layout], false⟩
    let context := Context.prop "Vendor:Card" [] "part" .here [] [layout] false
    let nodes := [context.fill (.element { element with children := [routed, layout] }),
      .leaf (.expression "x")]
    let spaced := [context.fill (.element { element with children := [layout, routed, layout] }),
      .leaf (.expression "x")]
    let settings : Settings := ⟨"", some 3⟩
    Text.IsLayout "\n\u2028 " ∧ (∃ child ∈ [routed, layout], child.payload? .path = none) ∧
      (settings.render (tidy nodes)).result = (settings.render nodes).result ∧
      (settings.render spaced).result = (settings.render nodes).result ∧
      (settings.render (nodes ++ [layout])).result = (settings.render nodes).result ∧
      tidy (layout :: nodes) = tidy nodes ∧
      (settings.render (layout :: nodes)).result = (settings.render nodes).result := by
  intro layout routed element context nodes spaced settings
  have isLayout : Text.IsLayout "\n\u2028 " := by decide +kernel
  have content : ∃ child ∈ [routed, layout], child.payload? .path = none :=
    ⟨layout, List.mem_cons_of_mem routed List.mem_cons_self, rfl⟩
  have sameTidied : tidy (layout :: nodes) = tidy nodes := tidy_insert_layout isLayout [] nodes
  obtain ⟨whole, alike, root, inside⟩ := render_tidy settings
  exact ⟨isLayout, content, whole nodes,
    inside _ isLayout element [] [routed, layout] content context [] [.leaf (.expression "x")],
    root _ isLayout nodes [], sameTidied, alike _ _ sameTidied⟩

end MarkupBlocks
