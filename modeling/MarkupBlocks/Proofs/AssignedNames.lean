/-
The names that an element assigns.

The names in the block of an element come from five places: what a plain tag says about itself, the
properties under their own names or as attributes, the paths of children, and the name of the
content. What is the element's own never clashes, whatever the properties are called, because an
attribute is out of the way of everything that is not one. So a name is assigned twice only when a
child asks for it: by a path that is taken, or when the content goes where something else is.
-/

import MarkupBlocks.Proofs.Decisions
import MarkupBlocks.Proofs.PlainTags

namespace MarkupBlocks

namespace Element

/-- The names under which an element assigns what is its own: what a plain tag says about itself,
and the properties that are not reserved, which are attributes of a plain tag unless they speak
about the object. -/
def ownNames (element : Element) : List String :=
  (if element.isQualified then []
    else "tagName" :: if element.selfClosing then ["selfClosingTag"] else []) ++
  (element.props.filter fun prop => !Control.isReserved prop.1).map fun prop =>
    if element.isQualified || isMeta prop.1 then prop.1 else "attributes." ++ prop.1

theorem ownNames_eq (element : Element) :
    element.ownNames =
      Bindings.names element.tagOutline ++ Bindings.names element.assignedProps := by
  unfold ownNames tagOutline tagProps assignedProps Bindings.names
  rw [List.map_map, List.map_map]
  refine congrArg₂ _ ?_ rfl
  split
  · rfl
  · split <;> rfl

theorem mem_contentLabel?_iff {element : Element} {name : String} :
    name ∈ element.contentLabel? ↔
      (∃ child ∈ element.children, child.payload? .path = none) ∧ name = element.contentLabel := by
  rw [contentLabel?, ← Children.content_isEmpty_eq_false_iff]
  cases (Children.content element.children).isEmpty with
  | true => exact iff_of_false (Option.not_mem_none name) fun both => Bool.noConfusion both.1
  | false => exact Option.some_inj.trans (eq_comm.trans (and_iff_right rfl).symm)

variable {element : Element}

theorem names_tagOutline_of_plain (plain : element.isQualified = false) :
    Bindings.names element.tagOutline = Bindings.names element.ownProps := by
  rw [ownProps_eq_map plain, tagOutline, Bindings.names_mapValues, Bindings.names_mapValues]

/-- What is an element's own are the properties of the object that it stands for. -/
theorem ownNames_eq_writtenOut :
    element.ownNames = Bindings.names element.writtenOut.assignedProps := by
  rw [ownNames_eq]
  cases qualified : element.isQualified with
  | true => rw [writtenOut_of_qualified qualified, tagOutline_of_qualified qualified]; rfl
  | false =>
    rw [assignedProps_writtenOut qualified, Bindings.names_append,
      names_tagOutline_of_plain qualified]

/-- What is an element's own never clashes. -/
theorem nodup_ownNames (distinct : (Bindings.names element.props).Nodup) :
    element.ownNames.Nodup := by
  have among : (Bindings.names element.writtenOut.assignedProps).Sublist
      (Bindings.names element.writtenOut.props) := by
    rw [assignedProps]
    simp only [assignedName_writtenOut]
    rw [Bindings.names, List.map_map]
    exact List.filter_sublist.map Prod.fst
  rw [ownNames_eq_writtenOut]
  exact (nodup_names_writtenOut distinct).sublist among

/-- The names in the outline of an element. -/
theorem names_outline (element : Element) :
    ∃ assignments, element.outline = .block element.prototype assignments ∧
      Bindings.names assignments =
        element.ownNames ++ (element.children.filterMap Node.path?).eraseDups ++
          element.contentLabel?.toList := by
  refine ⟨_, element.outline_eq, ?_⟩
  have content (outline : Outline) :
      Bindings.names (element.assignedContent outline) = element.contentLabel?.toList := by
    rw [assignedContent, Bindings.names, List.map_map]
    exact List.map_id _
  rw [Bindings.names_append, Bindings.names_append, Bindings.names_append, content,
    Bindings.names_mapValues, Bindings.names_mapValues, ownNames_eq, Children.names_routed]

end Element

/-- Names in three groups, of which the first two hold no name twice, are distinct when no name of
the second is among the first, and the third is a name of neither. -/
theorem nodup_names_iff {own paths : List String} {content : Option String}
    (ownDistinct : own.Nodup) (pathsDistinct : paths.Nodup) :
    (own ++ paths ++ content.toList).Nodup ↔
      (∀ path ∈ paths, path ∉ own) ∧ ∀ name ∈ content, name ∉ own ∧ name ∉ paths := by
  have groups : (own ++ paths).Nodup ↔ ∀ path ∈ paths, path ∉ own := by
    rw [List.nodup_append]
    constructor
    · rintro ⟨-, -, apart⟩ path member taken
      exact apart path taken path member rfl
    · refine fun apart => ⟨ownDistinct, pathsDistinct, fun name taken path member same => ?_⟩
      exact apart path member (same ▸ taken)
  cases content with
  | none =>
    rw [Option.toList_none, List.append_nil, groups]
    exact (and_iff_left nofun).symm
  | some name =>
    have each :
        (∀ other ∈ some name, other ∉ own ∧ other ∉ paths) ↔ name ∉ own ∧ name ∉ paths := by
      simp only [Option.mem_some_iff, forall_eq']
    rw [Option.toList_some, ← List.concat_eq_append, List.nodup_concat, groups, List.mem_append,
      not_or, each, and_comm]

/-! ### Names of a block -/

/-- An element that renders is written as a block, which assigns what is the element's own, then
each path once, then the content if there is any. What is its own never clashes. No name is assigned
twice exactly when no child has a path that is taken, and the content, if there is any, goes where
neither the element nor a path puts anything. -/
theorem nodup_assigned_iff (settings : Settings) {element : Element}
    (distinct : (Bindings.names element.props).Nodup) {indentation text : String}
    (renders : (settings.renderElement element indentation).result = .ok text) :
    ∃ prototype assignments,
      (Value.ofElement settings.maxDepth 0 element).result = .ok (.block prototype assignments) ∧
      text = (Value.block prototype assignments).print indentation ∧
      Bindings.names assignments =
        element.ownNames ++ (element.children.filterMap Node.path?).eraseDups ++
          element.contentLabel?.toList ∧
      element.ownNames.Nodup ∧
      ((Bindings.names assignments).Nodup ↔
        (∀ child ∈ element.children, ∀ path, child.path? = some path → path ∉ element.ownNames) ∧
        ((∃ child ∈ element.children, child.payload? .path = none) →
          element.contentLabel ∉ element.ownNames ∧
          ∀ child ∈ element.children, child.path? ≠ some element.contentLabel)) := by
  obtain ⟨assignments, outline, names⟩ := element.names_outline
  have value := ofNode_eq_follow settings.maxDepth 0 (.element element)
  rw [renderElement_eq_follow, follow_eq_ok_iff, Node.outline_element, outline] at renders
  rw [Value.ofNode_element, Node.journal_element, Node.outline_element, outline, Outline.value]
    at value
  have namesOfValues :
      Bindings.names (outlinedValues assignments) = Bindings.names assignments := by
    rw [outlinedValues_eq_map, Bindings.names_mapValues]
  refine ⟨element.prototype, outlinedValues assignments, ?_, renders.2, namesOfValues.trans names,
    Element.nodup_ownNames distinct, ?_⟩
  · rw [value]
    exact follow_eq_ok_iff.mpr ⟨renders.1, rfl⟩
  · have carried (path : String) : path ∈ (element.children.filterMap Node.path?).eraseDups ↔
        ∃ child ∈ element.children, child.path? = some path := by
      rw [List.mem_eraseDups, List.mem_filterMap]
    rw [namesOfValues, names,
      nodup_names_iff (Element.nodup_ownNames distinct) (nodup_eraseDups _)]
    simp only [carried, Element.mem_contentLabel?_iff]
    constructor
    · rintro ⟨paths, content⟩
      refine ⟨fun child member path carries => paths path ⟨child, member, carries⟩, fun some => ?_⟩
      obtain ⟨own, other⟩ := content _ ⟨some, rfl⟩
      exact ⟨own, fun child member carries => other ⟨child, member, carries⟩⟩
    · rintro ⟨paths, content⟩
      constructor
      · rintro path ⟨child, member, carries⟩
        exact paths child member path carries
      · rintro _ ⟨some, rfl⟩
        obtain ⟨own, other⟩ := content some
        refine ⟨own, ?_⟩
        rintro ⟨child, member, carries⟩
        exact other child member carries

/-- A tag with an attribute that is called like what the tag says about itself, and with two
children for one path. Only its content gets in the way, when it goes where the attribute is. -/
theorem nodup_assigned_iff_attribute :
    let routed := Node.element ⟨"V:P", [("@path", .leaf (.literal "p"))], [], false⟩
    let tag (content : String) : Element :=
      ⟨"a", [("tagName", .leaf (.expression "t")), ("@if", .leaf (.expression "c")),
        ("@children", .leaf (.literal content))], [routed, .leaf (.text "x"), routed], true⟩
    let settings : Settings := ⟨"", some 2⟩
    let own := ["tagName", "selfClosingTag", "attributes.tagName", "@if"]
    let written (content : String) :=
      "Neos.Fusion:Tag \x7b\n    tagName = 'a'\n    selfClosingTag = true\n" ++
        "    attributes.tagName = $\x7bt\x7d\n    @if = $\x7bc\x7d\n" ++
        "    p = V:P \x7b\n    \x7d\n    " ++ content ++ " = 'x'\n\x7d"
    let assigns (content : String) (assignments : List (String × Value)) :=
      ∃ prototype, (Value.ofElement settings.maxDepth 0 (tag content)).result =
        .ok (.block prototype assignments)
    (∀ content, (Bindings.names (tag content).props).Nodup) ∧
      (settings.renderElement (tag "q") "").result = .ok (written "q") ∧
      (settings.renderElement (tag "attributes.tagName") "").result =
        .ok (written "attributes.tagName") ∧
      (∃ assignments, assigns "q" assignments ∧
        Bindings.names assignments = own ++ ["p", "q"] ∧ (Bindings.names assignments).Nodup) ∧
      ∃ assignments, assigns "attributes.tagName" assignments ∧
        Bindings.names assignments = own ++ ["p", "attributes.tagName"] ∧
          ¬ (Bindings.names assignments).Nodup := by
  intro routed tag settings own written assigns
  have distinct (content : String) : (Bindings.names (tag content).props).Nodup := by
    show ["tagName", "@if", "@children"].Nodup
    decide
  have free : (settings.renderElement (tag "q") "").result = .ok (written "q") := by
    decide +kernel
  have taken : (settings.renderElement (tag "attributes.tagName") "").result =
      .ok (written "attributes.tagName") := by
    decide +kernel
  refine ⟨distinct, free, taken, ?_, ?_⟩
  · obtain ⟨prototype, assignments, value, -, names, -, apart⟩ :=
      nodup_assigned_iff settings (distinct "q") free
    have listed : Bindings.names assignments = own ++ ["p", "q"] :=
      names.trans (by decide +kernel)
    exact ⟨assignments, ⟨prototype, value⟩, listed, listed ▸ by decide⟩
  · obtain ⟨prototype, assignments, value, -, names, -, apart⟩ :=
      nodup_assigned_iff settings (distinct "attributes.tagName") taken
    refine ⟨assignments, ⟨prototype, value⟩, names.trans (by decide +kernel), fun nodup => ?_⟩
    obtain ⟨own, -⟩ := (apart.mp nodup).2 ⟨.leaf (.text "x"), by simp [tag], rfl⟩
    exact own (by decide +kernel)

end MarkupBlocks
