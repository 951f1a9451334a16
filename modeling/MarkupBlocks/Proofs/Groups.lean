/-
Children matter through their two groups.

An element sorts its children into those with a path and those without, and from there on it looks
at the groups only. Where the children of one group stand among those of the other is not seen, and
of several children with one path only the last is looked at, so what an earlier one holds does not
matter: it is neither written nor at fault nor too deep. The element is the same for all that is
around it, so this is true at every depth.
-/

import MarkupBlocks.Proofs.Faults
import MarkupBlocks.Proofs.Decisions
import MarkupBlocks.Proofs.Places

namespace MarkupBlocks

/-! ### Elements that may take each other's place -/

theorem renderNode_result_eq_of_agree {left right : Node}
    (agree : (Comparison.upTo Step.decides).Agree left right) (settings : Settings)
    (indentation : String) :
    (settings.renderNode left indentation).result =
      (settings.renderNode right indentation).result := by
  have steps : (left.journal 0).filter Step.decides = (right.journal 0).filter Step.decides :=
    agree.1 0
  have outline : left.outline = right.outline := agree.2
  rw [renderNode_eq_follow, renderNode_eq_follow, ← follow_filter_decides, steps,
    follow_filter_decides, outline]

theorem renderElement_eq_renderNode (settings : Settings) (element : Element)
    (indentation : String) :
    settings.renderElement element indentation =
      settings.renderNode (.element element) indentation := by
  rw [Settings.renderElement, Settings.renderNode, Value.ofNode_element]

/-- Two elements may take each other's place: the text or the fault is the same when they are
rendered on their own, in any place of a larger tree, and in any place of a document. -/
structure Interchangeable (settings : Settings) (left right : Element) : Prop where
  element : ∀ indentation : String,
    (settings.renderElement left indentation).result =
      (settings.renderElement right indentation).result
  node : ∀ (context : Context) (indentation : String),
    (settings.renderNode (context.fill (.element left)) indentation).result =
      (settings.renderNode (context.fill (.element right)) indentation).result
  document : ∀ (context : Context) (before after : List Node),
    (settings.render (before ++ context.fill (.element left) :: after)).result =
      (settings.render (before ++ context.fill (.element right) :: after)).result

/-- Elements that differ in their children, but not in what decides anything, may take each other's
place. -/
theorem interchangeable_of_sameChildren (settings : Settings) (element : Element)
    {left right : List Node} (same : SameChildren left right) :
    Interchangeable settings { element with children := left }
      { element with children := right } := by
  have agree : (Comparison.upTo Step.decides).Agree (.element { element with children := left })
      (.element { element with children := right }) :=
    Element.agree_of_sameChildren { element with children := left } same
  have alike (surroundings : Surroundings) :=
    Surroundings.alike_of_element agree (fun _ => rfl) surroundings
  have node (context : Context) (indentation : String) :
      (settings.renderNode (context.fill (.element { element with children := left }))
        indentation).result =
      (settings.renderNode (context.fill (.element { element with children := right }))
        indentation).result := by
    -- The value of a property that is not reserved is looked at as a whole.
    have whole : (Surroundings.prop "").Alike (Comparison.upTo Step.decides) _ _ :=
      context.alike_fill (alike _)
    exact renderNode_result_eq_of_agree (whole.1 (by decide)) settings indentation
  refine ⟨fun indentation => ?_, node, fun context before after => ?_⟩
  · rw [renderElement_eq_renderNode, renderElement_eq_renderNode]
    exact node .here indentation
  · exact render_result_eq_of_agree (siblingsAgree_fill (alike _)) settings

/-! ### Groups -/

/-- The group of the children with a path: each path stands where it is first carried, for the last
child that carries it. -/
def Children.collapsed (children : List Node) : List (String × Node) :=
  (children.filterMap Node.path?).eraseDups.filterMap fun path =>
    (Children.lastWith? children path).map fun child => (path, child)

/-- Children of which each path can be read fall into the same two groups. -/
structure SameGroups (left right : List Node) : Prop where
  readable : ∀ child ∈ left ++ right, ¬ Unreadable (child.payload? .path)
  content : Children.content left = Children.content right
  collapsed : Children.collapsed left = Children.collapsed right

theorem payloadSteps_of_readable {control : Control} {payload : Option Node}
    (readable : ¬ Unreadable payload) : payloadSteps control payload = [] := by
  unfold payloadSteps
  split
  · rfl
  · next node =>
    split
    · rfl
    · next literal => exact absurd ⟨node, rfl, literal⟩ readable

theorem sameChildren_of_sameGroups {left right : List Node} (same : SameGroups left right) :
    SameChildren left right where
  paths := by
    have silent {children : List Node} (within : children ⊆ left ++ right) :
        (children.flatMap fun child => payloadSteps .path (child.payload? .path)) = [] :=
      List.flatMap_eq_nil_iff.mpr fun child member =>
        payloadSteps_of_readable (same.readable child (within member))
    rw [silent (List.subset_append_left left right), silent (List.subset_append_right left right)]
  routed := by
    rw [Children.routed_eq, Children.routed_eq]
    exact same.collapsed
  content := congrArg Siblings.significant same.content
  isEmpty := congrArg List.isEmpty same.content

/-! ### Children in another order -/

/-- What is told of the children with a path only is told of them in their order. -/
theorem flatMap_filter_path {Member : Type} {tell : Node → List Member}
    (silent : ∀ child : Node, child.payload? .path = none → tell child = [])
    (children : List Node) :
    (children.filter fun child => (child.payload? .path).isSome).flatMap tell =
      children.flatMap tell := by
  induction children with
  | nil => rfl
  | cons child rest inductionHypothesis =>
    rw [List.filter_cons, List.flatMap_cons]
    cases carried : child.payload? .path with
    | none => rw [silent child carried, List.nil_append]; exact inductionHypothesis
    | some payload => exact congrArg (tell child ++ ·) inductionHypothesis

/-- Where the children with a path stand among the others decides nothing. -/
theorem sameChildren_of_interleaved {left right : List Node}
    (content : Children.content left = Children.content right)
    (carriers : (left.filter fun child => (child.payload? .path).isSome) =
      right.filter fun child => (child.payload? .path).isSome) :
    SameChildren left right where
  paths := by
    have silent (child : Node) (unrouted : child.payload? .path = none) :
        payloadSteps .path (child.payload? .path) = [] := by
      rw [unrouted, payloadSteps]
    rw [← flatMap_filter_path silent, carriers, flatMap_filter_path silent]
  routed := by
    have silent (child : Node) (unrouted : child.payload? .path = none) :
        (child.path?.map fun path => (path, child)).toList = [] := by
      rw [Node.path?, unrouted, readable_none]
      rfl
    rw [Children.routed, Children.routed, List.filterMap_eq_flatMap_toList,
      List.filterMap_eq_flatMap_toList, ← flatMap_filter_path silent, carriers,
      flatMap_filter_path silent]
  content := congrArg Siblings.significant content
  isEmpty := congrArg List.isEmpty content

/-! ### Children whose path is carried again -/

theorem payloadSteps_of_path? {child : Node} {path : String} (carried : child.path? = some path) :
    payloadSteps .path (child.payload? .path) = [] := by
  refine payloadSteps_of_readable ?_
  rintro ⟨payload, found, unreadable⟩
  rw [Node.path?, found, readable_some, unreadable] at carried
  exact absurd carried.symm (Option.some_ne_none path)

/-- What is in a child decides nothing when a later child carries its path. -/
theorem sameChildren_of_later {before after : List Node} {child other : Node} {path : String}
    (carried : child.path? = some path) (alike : other.path? = some path)
    (again : ∃ later ∈ after, later.path? = some path) :
    SameChildren (before ++ child :: after) (before ++ other :: after) := by
  have content : Children.content (before ++ child :: after) =
      Children.content (before ++ other :: after) := by
    rw [Children.content_of_routed before after (Node.payload?_ne_none_of_path? carried),
      Children.content_of_routed before after (Node.payload?_ne_none_of_path? alike)]
  refine ⟨?_, Children.routed_of_later again carried alike,
    congrArg Siblings.significant content, congrArg List.isEmpty content⟩
  rw [List.flatMap_append, List.flatMap_append, List.flatMap_cons, List.flatMap_cons,
    payloadSteps_of_path? carried, payloadSteps_of_path? alike]

/-! ### Elements -/

/-- An element may take the place of another one with the same name and the same properties when
their children fall into the same two groups. So the children with a path may be moved among the
others, and a child may be replaced by any other with its path when a later child has that path. -/
theorem interchangeable_of_sameGroups (settings : Settings) (element : Element) :
    (∀ left right, SameGroups left right →
      Interchangeable settings { element with children := left }
        { element with children := right }) ∧
    (∀ left right, Children.content left = Children.content right →
      (left.filter fun child => (child.payload? .path).isSome) =
        (right.filter fun child => (child.payload? .path).isSome) →
      Interchangeable settings { element with children := left }
        { element with children := right }) ∧
    ∀ before after child other path, child.path? = some path → other.path? = some path →
      (∃ later ∈ after, later.path? = some path) →
      Interchangeable settings { element with children := before ++ child :: after }
        { element with children := before ++ other :: after } := by
  refine ⟨fun left right same => ?_, fun left right content carriers => ?_,
    fun before after child other path carried alike again => ?_⟩
  · exact interchangeable_of_sameChildren settings element (sameChildren_of_sameGroups same)
  · exact interchangeable_of_sameChildren settings element
      (sameChildren_of_interleaved content carriers)
  · exact interchangeable_of_sameChildren settings element
      (sameChildren_of_later carried alike again)

/-- The first child for a path holds an element that is at fault and one that is nested too deep. It
may be emptied, and the children with a path may be moved among the others: the last child for that
path is the one that is written, in front of the child for another path. -/
theorem interchangeable_of_sameGroups_overwritten :
    let routed (path : String) (children : List Node) :=
      Node.element ⟨"V:P", [("@path", .leaf (.literal path))], children, false⟩
    let faulty := Node.element ⟨"V:F", [("@path", .leaf (.boolean true))], [], false⟩
    let first := routed "a" [.element ⟨"V:D", [], [faulty], false⟩]
    let last := routed "a" [.leaf (.text "z")]
    let other := routed "b" []
    let text := Node.leaf (.text "x")
    let code := Node.leaf (.expression "y")
    let children := [first, other, text, last, code]
    let emptied := [routed "a" [], other, text, last, code]
    let moved := [text, routed "a" [], code, other, last]
    let render (children : List Node) := Settings.render ⟨"", some 3⟩
      [.element ⟨"V:C", [("part", .element ⟨"V:E", [], children, false⟩)], [], false⟩]
    SameGroups children moved ∧
      (render children).result = .ok
        ("V:C \x7b\n    part = V:E \x7b\n        a = V:P \x7b\n            content = 'z'\n" ++
          "        \x7d\n        b = V:P \x7b\n        \x7d\n" ++
          "        content = Neos.Fusion:Array \x7b\n            1 = 'x'\n" ++
          "            2 = $\x7by\x7d\n        \x7d\n    \x7d\n\x7d") ∧
      (render emptied).result = (render children).result ∧
      (render moved).result = (render emptied).result ∧
      (render moved).result = (render children).result := by
  intro routed faulty first last other text code children emptied moved render
  have same : SameGroups children moved := ⟨by decide, rfl, rfl⟩
  obtain ⟨groups, interleaved, overwritten⟩ :=
    interchangeable_of_sameGroups ⟨"", some 3⟩ ⟨"V:E", [], [], false⟩
  have whole := (groups children moved same).document
    (Context.prop "V:C" [] "part" .here [] [] false) [] []
  have between := (interleaved emptied moved rfl rfl).document
    (Context.prop "V:C" [] "part" .here [] [] false) [] []
  have replaced := (overwritten [] [other, text, last, code] first (routed "a" []) "a" rfl rfl
    ⟨last, by simp, rfl⟩).document (Context.prop "V:C" [] "part" .here [] [] false) [] []
  exact ⟨same, by decide +kernel, replaced.symm, between.symm, whole.symm⟩

end MarkupBlocks
