/-
Control properties out of their place.

A control property is asked for in one place only: a key where there are several siblings, a path
where there is a parent, the name of the content where there is content. Elsewhere nobody reads its
payload, not even to see whether it can be read, so a payload may come, go or change into another
one that is as deep as it likes. The element itself is the same in its other parts, and what is
around it sees no difference.
-/

import MarkupBlocks.Proofs.Places

namespace MarkupBlocks

/-- Two elements are the same but for a control property. It may be missing in one of them, or be
set to another payload or in another place. -/
structure DiffersOnlyIn (control : Control) (left right : Element) : Prop where
  identifier : left.identifier = right.identifier
  props : (left.props.filter fun prop => prop.1 != control.name) =
    right.props.filter fun prop => prop.1 != control.name
  children : left.children = right.children
  selfClosing : left.selfClosing = right.selfClosing

/-- An element is one of several siblings that mean something, in a document or in the content of
its parent. -/
def Surroundings.OneOfSeveral (element : Element) : Surroundings → Prop
  | document before after =>
    2 ≤ (Siblings.significant (before ++ .element element :: after)).length
  | prop _ => False
  | children before after =>
    element.prop? Control.path.name = none ∧
      2 ≤ (Siblings.significant
        (Children.content (before ++ .element element :: after))).length

/-- An element is a child of an element. -/
def Surroundings.IsParent : Surroundings → Prop
  | document _ _ | prop _ => False
  | children _ _ => True

/-- An element is in a place where nobody asks for a control property of it. -/
def Control.Idle (surroundings : Surroundings) (element : Element) : Control → Prop
  | key => ¬ surroundings.OneOfSeveral element
  | path => ¬ surroundings.IsParent
  | children => ∀ child ∈ element.children, child.payload? .path ≠ none

/-! ### Elements -/

theorem Control.name_injective {left right : Control} (same : left.name = right.name) :
    left = right := by
  cases left <;> cases right <;> first | rfl | exact absurd same (by decide)

theorem Bindings.get?_filter_ne {Value : Type} {name other : String} (different : other ≠ name)
    (bindings : Bindings Value) :
    get? (bindings.filter fun pair => pair.1 != name) other = get? bindings other := by
  induction bindings with
  | nil => rfl
  | cons pair rest inductionHypothesis =>
    obtain ⟨bound, value⟩ := pair
    rw [List.filter_cons, get?_cons]
    by_cases dropped : bound = name
    · rw [if_neg (by simp [dropped]), inductionHypothesis, if_neg (dropped ▸ different)]
    · rw [if_pos (by simp [dropped]), get?_cons, inductionHypothesis]

namespace DiffersOnlyIn

variable {control : Control} {left right : Element} (differs : DiffersOnlyIn control left right)

include differs

theorem readControl_eq {other : Control} (different : other ≠ control) :
    left.readControl other = right.readControl other := by
  have names : other.name ≠ control.name := mt Control.name_injective different
  rw [Element.readControl, Element.readControl, Element.prop?, Element.prop?,
    ← Bindings.get?_filter_ne names left.props, ← Bindings.get?_filter_ne names right.props,
    differs.props]

theorem free_eq : (left.props.filter fun prop => !Control.isReserved prop.1) =
    right.props.filter fun prop => !Control.isReserved prop.1 := by
  have narrower (props : List (String × Node)) :
      (props.filter fun prop => prop.1 != control.name).filter
        (fun prop => !Control.isReserved prop.1) =
        props.filter fun prop => !Control.isReserved prop.1 := by
    rw [List.filter_filter]
    refine List.filter_congr fun prop _ => ?_
    by_cases own : prop.1 = control.name
    · rw [own, control.isReserved_name]
      rfl
    · rw [bne_iff_ne.mpr own, Bool.and_true]
  rw [← narrower, ← narrower right.props, differs.props]

/-- Elements that differ only in a control property that they do not ask for themselves compare
alike. -/
theorem agree {comparison : Comparison}
    (idle : control = .children → ∀ child ∈ left.children, child.payload? .path ≠ none) :
    comparison.Agree (.element left) (.element right) := by
  refine Element.agree_of_childrenAgree ?_
    (Comparison.propsAgree_of_free_eq differs.identifier differs.selfClosing differs.free_eq) ?_
  · by_cases own : .children = control
    · have none : Children.content left.children = [] := by
        refine List.eq_nil_iff_forall_not_mem.mpr fun child member => ?_
        obtain ⟨present, unrouted⟩ := Children.mem_content_iff.mp member
        exact idle own.symm child present unrouted
      exact Or.inr (List.isEmpty_iff.mpr none)
    · exact Or.inl (differs.readControl_eq own)
  · rw [← differs.children]
    exact Comparison.childrenAgree_refl _

/-- What is around an element sees no difference when a control property changes that nobody asks
for. -/
theorem alike {comparison : Comparison} {surroundings : Surroundings}
    (idle : control.Idle surroundings left) :
    surroundings.Alike comparison (.element left) (.element right) := by
  have agree : comparison.Agree (.element left) (.element right) :=
    differs.agree fun named => by subst named; exact idle
  -- The key matters only in a list of several siblings.
  have siblings (nodes : List Node)
      (single : control = .key → ¬ 2 ≤ (Siblings.significant nodes).length) :
      SiblingsAlike comparison nodes (.element left) (.element right) := by
    refine .some ⟨agree, fun several => agree.slots ?_ rfl⟩
    exact differs.readControl_eq fun key => single key.symm several
  cases surroundings with
  | document before after => exact siblings _ fun key => by subst key; exact idle
  | prop name => exact ⟨fun _ => agree, fun _ => ⟨rfl, rfl⟩⟩
  | children before after =>
    refine ⟨differs.readControl_eq fun path => ?_, fun _ => agree, fun unrouted => ?_⟩
    · subst path
      exact idle trivial
    · refine siblings _ fun key several => ?_
      subst key
      exact idle ⟨unrouted, several⟩

end DiffersOnlyIn

/-! ### Documents -/

/-- A control property has no effect out of its place. At any depth of a document, an element whose
key, path or name of the content nobody asks for may set it to any payload or not at all: the
document renders to the same text or the same fault, with the same events, under any limit and at
any indentation. -/
theorem render_idle_control (settings : Settings) {control : Control} {left right : Element}
    (differs : DiffersOnlyIn control left right) {context : Context} {before after : List Node}
    (idle : control.Idle (context.around (.document before after)) left) :
    settings.render (before ++ context.fill (.element left) :: after) =
      settings.render (before ++ context.fill (.element right) :: after) :=
  render_eq_of_agree (siblingsAgree_fill (differs.alike idle)) settings

/-- A routed child between two siblings gets a key that is no quoted value and nested deeper than
the limit. It is no content, so nobody asks for its key. -/
theorem render_idle_control_deep_key :
    let path : String × Node := ("@path", .leaf (.literal "slot"))
    let deep := Node.element ⟨"c", [], [.element ⟨"d", [], [.element ⟨"e", [], [], true⟩], false⟩],
      false⟩
    let left : Element := ⟨"b", [path], [], true⟩
    let right : Element := ⟨"b", [("@key", deep), path], [], true⟩
    let context := Context.child "Vendor:Card" [] [.leaf (.text "x")] .here
      [.leaf (.boolean true)] false
    let settings : Settings := ⟨"", some 2⟩
    DiffersOnlyIn .key left right ∧
      Control.Idle (context.around (.document [] [])) left .key ∧
      settings.render [context.fill (.element left)] =
        settings.render [context.fill (.element right)] ∧
      (settings.render [context.fill (.element right)]).result = .ok
        ("Vendor:Card \x7b\n    slot = Neos.Fusion:Tag \x7b\n        tagName = 'b'\n" ++
          "        selfClosingTag = true\n    \x7d\n    content = Neos.Fusion:Array \x7b\n" ++
          "        1 = 'x'\n        2 = true\n    \x7d\n\x7d") := by
  intro path deep left right context settings
  have differs : DiffersOnlyIn .key left right := ⟨rfl, rfl, rfl, rfl⟩
  have idle : Control.Idle (context.around (.document [] [])) left .key :=
    fun several => absurd several.1 nofun
  have same := render_idle_control settings differs idle
  exact ⟨differs, idle, same, by decide +kernel⟩

end MarkupBlocks
