/-
Plain tags are shorthand.

A plain tag stands for an object of the tag prototype, which could be written out as markup: the
name of the tag is a property, that it closes itself is another, and its own properties are
attributes, apart from those that speak about the object. Written out, a tree has the same value,
and it is taken through the same steps, so a limit and every fault and event are the same too.
The properties of the object have different names when those of the tag do, so what is written
out is an element again.
-/

import Mathlib.Data.List.Nodup
import MarkupBlocks.Proofs.Rewriting

namespace MarkupBlocks

/-- The name under which an object of the tag prototype has a property of the tag. -/
def attributeName (name : String) : String :=
  if isMeta name then name else attributeScope ++ name

/-- What a plain tag says about itself, as properties. -/
def Element.ownProps (element : Element) : List (String × Node) :=
  (tagNameProp, .leaf (.literal element.identifier)) ::
    if element.selfClosing then [(selfClosingProp, .leaf (.boolean true))] else []

/-- The object that an element stands for, when it is a plain tag. -/
def Element.writtenOut (element : Element) : Element :=
  if element.isQualified then element
  else
    { element with
      identifier := tagPrototype
      props := element.ownProps ++ element.props.map fun prop => (attributeName prop.1, prop.2) }

/-- Writes out the plain tags of a tree, at every depth. -/
def Node.desugar (node : Node) : Node :=
  node.rewrite Element.writtenOut

/-! ### Names of attributes -/

theorem attributeName_of_meta {name : String} (speaks : isMeta name = true) :
    attributeName name = name :=
  if_pos speaks

theorem attributeName_of_not_meta {name : String} (silent : isMeta name = false) :
    attributeName name = attributeScope ++ name :=
  if_neg (Bool.eq_false_iff.mp silent)

theorem isMeta_attributeName (name : String) : isMeta (attributeName name) = isMeta name := by
  cases speaks : isMeta name with
  | true => rw [attributeName_of_meta speaks, speaks]
  | false =>
    rw [attributeName_of_not_meta speaks, isMeta, String.toList_append]
    rfl

theorem attributeName_injective : Function.Injective attributeName := by
  intro name other same
  have kinds : isMeta name = isMeta other := by
    rw [← isMeta_attributeName name, ← isMeta_attributeName other, same]
  cases speaks : isMeta name with
  | true =>
    rw [attributeName_of_meta speaks, attributeName_of_meta (kinds ▸ speaks)] at same
    exact same
  | false =>
    rw [attributeName_of_not_meta speaks, attributeName_of_not_meta (kinds ▸ speaks)] at same
    exact (String.append_right_inj attributeScope).mp same

/-- An attribute never takes a name that is neither a meta name nor in the scope of attributes. -/
theorem attributeName_ne {own : String} (silent : isMeta own = false)
    (unscoped : ¬ attributeScope.toList <+: own.toList) (name : String) :
    attributeName name ≠ own := by
  rintro rfl
  rw [isMeta_attributeName] at silent
  refine unscoped ?_
  rw [attributeName_of_not_meta silent, String.toList_append]
  exact List.prefix_append _ _

theorem isReserved_of_not_meta {name : String} (silent : isMeta name = false) :
    Control.isReserved name = false :=
  Bool.eq_false_iff.mpr fun reserved => by
    rw [Control.isMeta_of_isReserved reserved] at silent
    exact absurd silent nofun

theorem isReserved_attributeName (name : String) :
    Control.isReserved (attributeName name) = Control.isReserved name := by
  cases speaks : isMeta name with
  | true => rw [attributeName_of_meta speaks]
  | false =>
    rw [isReserved_of_not_meta speaks, isReserved_of_not_meta]
    rw [isMeta_attributeName, speaks]

theorem attributeName_control (control : Control) : attributeName control.name = control.name :=
  attributeName_of_meta (Control.isMeta_of_isReserved control.isReserved_name)

theorem Bindings.get?_rename {Value : Type} {rename : String → String}
    (injective : Function.Injective rename) (bindings : Bindings Value) (asked : String) :
    get? (bindings.map fun pair => (rename pair.1, pair.2)) (rename asked) =
      get? bindings asked := by
  induction bindings with
  | nil => rfl
  | cons head rest inductionHypothesis =>
    obtain ⟨bound, value⟩ := head
    rw [List.map_cons, get?_cons, get?_cons, inductionHypothesis]
    simp only [injective.eq_iff]

theorem Bindings.names_rename {Value : Type} (rename : String → String)
    (bindings : Bindings Value) :
    names (bindings.map fun pair => (rename pair.1, pair.2)) = (names bindings).map rename := by
  rw [names, names, List.map_map, List.map_map]
  rfl

/-- Values may change under their names. -/
theorem Bindings.names_mapValues {Value Other : Type} (change : Value → Other)
    (bindings : Bindings Value) :
    names (bindings.map fun pair => (pair.1, change pair.2)) = names bindings := by
  rw [names, List.map_map]
  rfl

theorem Bindings.names_append {Value : Type} (left right : Bindings Value) :
    names (left ++ right) = names left ++ names right :=
  List.map_append

/-! ### What a plain tag says about itself -/

namespace Element

variable {element : Element}

theorem eq_of_mem_names_ownProps {own : String} (member : own ∈ Bindings.names element.ownProps) :
    own = tagNameProp ∨ own = selfClosingProp := by
  unfold ownProps Bindings.names at member
  rcases List.mem_cons.mp member with tag | closing
  · exact Or.inl tag
  · split at closing
    · exact Or.inr (List.mem_singleton.mp closing)
    · exact absurd closing List.not_mem_nil

theorem not_meta_of_mem_names_ownProps {own : String}
    (member : own ∈ Bindings.names element.ownProps) : isMeta own = false := by
  rcases eq_of_mem_names_ownProps member with rfl | rfl
  · decide
  · decide

theorem attributeName_ne_of_mem_names_ownProps {own : String}
    (member : own ∈ Bindings.names element.ownProps) (name : String) :
    attributeName name ≠ own := by
  refine attributeName_ne (not_meta_of_mem_names_ownProps member) ?_ name
  rcases eq_of_mem_names_ownProps member with rfl | rfl
  · decide
  · decide

theorem nodup_names_ownProps (element : Element) : (Bindings.names element.ownProps).Nodup := by
  unfold ownProps Bindings.names
  split
  · show [tagNameProp, selfClosingProp].Nodup
    decide
  · exact List.nodup_singleton _

theorem ownProps_eq_map (plain : element.isQualified = false) :
    element.ownProps = element.tagProps.map fun pair => (pair.1, .leaf pair.2) := by
  unfold ownProps tagProps
  rw [plain]
  split
  · rfl
  · rfl

/-! ### The object of a plain tag -/

theorem writtenOut_of_qualified (qualified : element.isQualified = true) :
    element.writtenOut = element :=
  if_pos qualified

theorem writtenOut_of_plain (plain : element.isQualified = false) :
    element.writtenOut =
      { element with
        identifier := tagPrototype
        props := element.ownProps ++ element.props.map fun prop =>
          (attributeName prop.1, prop.2) } :=
  if_neg (Bool.eq_false_iff.mp plain)

theorem isQualified_writtenOut : element.writtenOut.isQualified = true := by
  cases qualified : element.isQualified with
  | true => rw [writtenOut_of_qualified qualified, qualified]
  | false =>
    rw [writtenOut_of_plain qualified]
    show tagPrototype.toList.contains separator = true
    decide

theorem prototype_writtenOut : element.writtenOut.prototype = element.prototype := by
  cases qualified : element.isQualified with
  | true => rw [writtenOut_of_qualified qualified]
  | false =>
    rw [prototype, prototype, isQualified_writtenOut, qualified, writtenOut_of_plain qualified]
    rfl

theorem children_writtenOut : element.writtenOut.children = element.children := by
  unfold writtenOut
  split
  · rfl
  · rfl

/-- Control properties are no attributes, and what a tag says about itself is no control
property. -/
theorem prop?_writtenOut (control : Control) :
    element.writtenOut.prop? control.name = element.prop? control.name := by
  cases qualified : element.isQualified with
  | true => rw [writtenOut_of_qualified qualified]
  | false =>
    have own : List.lookup control.name element.ownProps = none := by
      refine List.lookup_eq_none_iff.mpr fun prop member => bne_iff_ne.mpr ?_
      rw [← attributeName_control control]
      exact attributeName_ne_of_mem_names_ownProps (List.mem_map_of_mem member) control.name
    have attributes := Bindings.get?_rename attributeName_injective element.props control.name
    rw [attributeName_control] at attributes
    rw [writtenOut_of_plain qualified, prop?, prop?, ← attributes]
    show List.lookup _ (_ ++ _) = _
    rw [List.lookup_append, own, Option.none_or]
    rfl

theorem assignedName_writtenOut (name : String) : element.writtenOut.assignedName name = name := by
  rw [assignedName, isQualified_writtenOut]
  rfl

theorem assignedName_of_plain (plain : element.isQualified = false) :
    element.assignedName = attributeName := by
  funext name
  rw [assignedName, plain]
  rfl

/-- The properties of the object are those that the tag had for it anyway. -/
theorem assignedProps_writtenOut (plain : element.isQualified = false) :
    element.writtenOut.assignedProps = element.ownProps ++ element.assignedProps := by
  have own : (element.ownProps.filter fun prop => !Control.isReserved prop.1) =
      element.ownProps := by
    refine List.filter_eq_self.mpr fun prop member => ?_
    rw [isReserved_of_not_meta (not_meta_of_mem_names_ownProps (List.mem_map_of_mem member))]
    rfl
  have free : (fun prop : String × Node => !Control.isReserved prop.1) ∘
      (fun prop : String × Node => (attributeName prop.1, prop.2)) =
        fun prop => !Control.isReserved prop.1 := by
    funext prop
    rw [Function.comp_apply, isReserved_attributeName]
  rw [assignedProps, assignedProps, assignedName_of_plain plain]
  simp only [assignedName_writtenOut]
  rw [writtenOut_of_plain plain, List.filter_append, own, List.filter_map, free]
  exact List.map_id _

theorem tagOutline_of_qualified (qualified : element.isQualified = true) :
    element.tagOutline = [] := by
  rw [tagOutline, tagProps, qualified]
  rfl

theorem journal_writtenOut (depth : Nat) :
    element.writtenOut.journal depth = element.journal depth := by
  cases qualified : element.isQualified with
  | true => rw [writtenOut_of_qualified qualified]
  | false =>
    have own : (element.ownProps.flatMap fun pair => pair.2.journal (depth + 1)) = [] := by
      rw [ownProps_eq_map qualified, List.flatMap_map]
      exact List.flatMap_eq_nil_iff.mpr fun pair _ => Node.journal_leaf (depth + 1) pair.2
    have label := element.prop?_writtenOut .children
    rw [journal_eq, journal_eq, assignedProps_writtenOut qualified, children_writtenOut,
      List.flatMap_append, own, List.nil_append, contentSteps, contentSteps, children_writtenOut,
      label]

theorem outline_writtenOut : element.writtenOut.outline = element.outline := by
  cases qualified : element.isQualified with
  | true => rw [writtenOut_of_qualified qualified]
  | false =>
    have own :
        (element.ownProps.map fun pair => (pair.1, pair.2.outline)) = element.tagOutline := by
      rw [ownProps_eq_map qualified, List.map_map, tagOutline]
      exact List.map_congr_left fun pair _ => congrArg (Prod.mk pair.1) (Node.outline_leaf pair.2)
    have label := element.prop?_writtenOut .children
    rw [outline_eq, outline_eq, prototype_writtenOut,
      tagOutline_of_qualified isQualified_writtenOut, assignedProps_writtenOut qualified,
      children_writtenOut, List.map_append, own, List.nil_append, assignedContent_eq,
      assignedContent_eq, children_writtenOut, contentLabel, contentLabel, label]

/-- Different names stay different, and none of them becomes a name that speaks about the tag. -/
theorem nodup_names_writtenOut (distinct : (Bindings.names element.props).Nodup) :
    (Bindings.names element.writtenOut.props).Nodup := by
  cases qualified : element.isQualified with
  | true => rwa [writtenOut_of_qualified qualified]
  | false =>
    rw [writtenOut_of_plain qualified, Bindings.names_append, Bindings.names_rename,
      List.nodup_append]
    refine ⟨nodup_names_ownProps element, distinct.map attributeName_injective, ?_⟩
    intro own ownMember name member same
    obtain ⟨prop, -, rfl⟩ := List.mem_map.mp member
    exact attributeName_ne_of_mem_names_ownProps ownMember prop same.symm

theorem wellFormed_writtenOut (wellFormed : element.WellFormed) :
    element.writtenOut.WellFormed := by
  cases wellFormed with
  | element distinct props children =>
    refine .element (nodup_names_writtenOut distinct) ?_ (by rwa [children_writtenOut])
    cases qualified : element.isQualified with
    | true => rwa [writtenOut_of_qualified qualified]
    | false =>
      rw [writtenOut_of_plain qualified, List.forall_mem_append, ownProps_eq_map qualified,
        List.forall_mem_map, List.forall_mem_map]
      exact ⟨fun pair _ => .leaf pair.2, props⟩

end Element

/-! ### Documents -/

/-- A document in which every plain tag is written out renders as the document does: to the same
text or the same fault, with the same events, under any limit and at any indentation. No element
of it sets a property twice, unless one of the document did. -/
theorem render_desugar (settings : Settings) (nodes : List Node) :
    settings.render (nodes.map Node.desugar) = settings.render nodes ∧
      ((∀ node ∈ nodes, node.WellFormed) →
        ∀ node ∈ nodes.map Node.desugar, node.WellFormed) := by
  have unnoticed (root : Element) : (Comparison.upTo fun _ => true).Agree (.element root)
      (.element root.writtenOut) := by
    refine ⟨fun depth => ?_, ?_⟩
    · rw [Node.journal_element, Node.journal_element, root.journal_writtenOut]
      exact (Comparison.upTo _).joinsSteps.refl _
    · rw [Node.outline_element, Node.outline_element, root.outline_writtenOut]
      rfl
  have agree := siblingsAgree_rewrite (fun root control => root.prop?_writtenOut control) unnoticed
    nodes
  refine ⟨?_, fun wellFormed => ?_⟩
  · exact (render_eq_of_agree agree settings).symm
  · exact List.forall_mem_map.mpr fun node member =>
      Node.wellFormed_rewrite (fun root => root.wellFormed_writtenOut) (wellFormed node member)

/-- A tag whose attributes have the names of what it says about itself, around one that closes
itself and has a key and a condition. -/
theorem render_desugar_own_names :
    let key : String × Node := ("@key", .leaf (.literal "k"))
    let condition : String × Node := ("@if", .leaf (.expression "y"))
    let image := Node.element ⟨"img", [key, condition], [], true⟩
    let nodes :=
      [Node.element ⟨"a", [("tagName", image), ("selfClosingTag", key.2)], [image], false⟩]
    let object := Node.element ⟨"Neos.Fusion:Tag", [("tagName", .leaf (.literal "img")),
      ("selfClosingTag", .leaf (.boolean true)), key, condition], [], true⟩
    let written := [Node.element ⟨"Neos.Fusion:Tag", [("tagName", .leaf (.literal "a")),
      ("attributes.tagName", object), ("attributes.selfClosingTag", key.2)], [object], false⟩]
    nodes.map Node.desugar = written ∧ (∀ node ∈ nodes, node.WellFormed) ∧
      Settings.render ⟨"", some 2⟩ written = Settings.render ⟨"", some 2⟩ nodes ∧
      ∀ node ∈ written, node.WellFormed := by
  intro key condition image nodes object written
  have renamed : attributeName "tagName" = "attributes.tagName" ∧
      attributeName "selfClosingTag" = "attributes.selfClosingTag" := by decide +kernel
  have imageWritten : image.rewrite Element.writtenOut = object := by
    rw [Node.rewrite_element, Element.writtenOut_of_plain (by decide)]
    simp only [Element.rewriteParts, List.map_cons, List.map_nil, Node.rewrite_leaf, key, condition]
    rfl
  have written_eq : nodes.map Node.desugar = written := by
    rw [List.map_singleton, Node.desugar, Node.rewrite_element,
      Element.writtenOut_of_plain (by decide)]
    simp only [Element.rewriteParts, List.map_cons, List.map_nil, Node.rewrite_leaf, imageWritten,
      key, renamed]
    rfl
  have wellFormed : ∀ node ∈ nodes, node.WellFormed := by decide +kernel
  obtain ⟨same, keeps⟩ := render_desugar ⟨"", some 2⟩ nodes
  rw [written_eq] at same keeps
  exact ⟨written_eq, wellFormed, same, keeps wellFormed⟩

end MarkupBlocks
