/-
Equal trees are written in the same lines.

Trees are equal up to the order of properties, and properties are written in their order. What is
read of a node by name is not changed by the order, so equal trees correspond. Put the properties
of the one element in the order of those of the other: they correspond one by one, and back in
their own order they make the same steps and the same lines, only in another order. A run succeeds
when each of its steps lets it pass, whatever their order is; in which fault a run ends depends on
the order, and is not told by equality.
-/

import Mathlib.Data.List.Nodup
import Mathlib.Data.List.Perm.Subperm
import MarkupBlocks.Markup.Equality
import MarkupBlocks.Markup.WellFormed
import MarkupBlocks.Proofs.Decisions
import MarkupBlocks.Proofs.Lines

namespace MarkupBlocks

/-! ### Bindings as maps -/

namespace Bindings

variable {Left Right Value : Type}

/-- A name answers the same in any order. -/
theorem get?_eq_of_perm {left right : Bindings Value} (distinct : (names left).Nodup)
    (order : left.Perm right) (name : String) : get? left name = get? right name := by
  have distinctRight : (names right).Nodup := (order.map Prod.fst).nodup distinct
  refine Option.ext fun value => ?_
  rw [get?_eq_some_iff distinct, get?_eq_some_iff distinctRight, order.mem_iff]

theorem names_eq_of_forall₂ {Like : Left → Right → Prop} {left : Bindings Left}
    {right : Bindings Right} (alike : List.Forall₂ (BoundAlike Like) left right) :
    names left = names right := by
  induction alike with
  | nil => rfl
  | cons head _ inductionHypothesis => exact congrArg₂ List.cons head.1 inductionHypothesis

/-- Bindings of which each has one that is related in bindings that are as many can be compared
one by one, when the latter are put in order. -/
theorem exists_perm_forall₂ {Like : Left → Right → Prop} {left : Bindings Left}
    {right : Bindings Right} (distinct : (names left).Nodup) (lengths : left.length = right.length)
    (within : ∀ pair ∈ left, ∃ other, get? right pair.1 = some other ∧ Like pair.2 other) :
    ∃ arranged : Bindings Right,
      arranged.Perm right ∧ List.Forall₂ (BoundAlike Like) left arranged := by
  have found : ∃ arranged : Bindings Right, arranged ⊆ right ∧
      List.Forall₂ (BoundAlike Like) left arranged := by
    clear distinct lengths
    induction left with
    | nil => exact ⟨[], List.nil_subset right, .nil⟩
    | cons head rest inductionHypothesis =>
      obtain ⟨other, answer, like⟩ := within head List.mem_cons_self
      obtain ⟨arranged, subset, alike⟩ :=
        inductionHypothesis fun pair member => within pair (List.mem_cons_of_mem head member)
      exact ⟨(head.1, other) :: arranged,
        List.cons_subset.mpr ⟨mem_of_get? answer, subset⟩, .cons ⟨rfl, like⟩ alike⟩
  obtain ⟨arranged, subset, alike⟩ := found
  -- As the names are distinct, the pairs that are found are as many as there are.
  have distinctFound : (names arranged).Nodup := names_eq_of_forall₂ alike ▸ distinct
  have nodup : arranged.Nodup := List.Nodup.of_map Prod.fst distinctFound
  have asMany : right.length ≤ arranged.length :=
    Nat.le_of_eq (lengths.symm.trans alike.length_eq)
  exact ⟨arranged, (List.subperm_of_subset nodup subset).perm_of_length_le asMany, alike⟩

end Bindings

/-! ### What equality says -/

theorem propsWithin_iff {props others : List (String × Node)} :
    propsWithin props others = true ↔
      ∀ prop ∈ props, ∃ other,
        Bindings.get? others prop.1 = some other ∧ prop.2.same other = true := by
  induction props with
  | nil => simp [propsWithin]
  | cons head rest inductionHypothesis =>
    obtain ⟨name, value⟩ := head
    rw [propsWithin, Bool.and_eq_true, inductionHypothesis, List.forall_mem_cons]
    refine and_congr_left fun _ => ?_
    cases Bindings.get? others name with
    | none => simp
    | some other =>
      refine ⟨fun same => ⟨other, rfl, same⟩, ?_⟩
      rintro ⟨_, found, same⟩
      exact Option.some.inj found ▸ same

theorem sameChildren_iff {left right : List Node} :
    sameChildren left right = true ↔
      List.Forall₂ (fun child other => child.same other = true) left right := by
  induction left generalizing right with
  | nil =>
    cases right with
    | nil => exact ⟨fun _ => .nil, fun _ => by rw [sameChildren]⟩
    | cons other others => simp [sameChildren]
  | cons head rest inductionHypothesis =>
    cases right with
    | nil => simp [sameChildren]
    | cons other others =>
      rw [sameChildren, Bool.and_eq_true, inductionHypothesis, List.forall₂_cons]

/-- Two trees are equal, and the first one sets no property twice. -/
def SameTree (left right : Node) : Prop :=
  left.WellFormed ∧ left.same right = true

/-- Two elements are equal, by an order in which the properties of the second one correspond to
those of the first one. -/
structure SameElement (left right : Element) (arranged : List (String × Node)) : Prop where
  identifier : left.identifier = right.identifier
  selfClosing : left.selfClosing = right.selfClosing
  distinct : (Bindings.names arranged).Nodup
  order : arranged.Perm right.props
  props : List.Forall₂ (BoundAlike SameTree) left.props arranged
  children : List.Forall₂ SameTree left.children right.children

namespace SameTree

theorem leaf {content : Leaf} {right : Node} (same : SameTree (.leaf content) right) :
    right = .leaf content := by
  obtain ⟨-, same⟩ := same
  cases right with
  | leaf other =>
    rw [Node.same, beq_iff_eq] at same
    rw [same]
  | element other => simp [Node.same] at same

theorem element {left : Element} {right : Node} (same : SameTree (.element left) right) :
    ∃ (other : Element) (arranged : List (String × Node)),
      right = .element other ∧ SameElement left other arranged := by
  obtain ⟨wellFormed, same⟩ := same
  cases right with
  | leaf other => simp [Node.same] at same
  | element right =>
    obtain ⟨identifier, props, children, selfClosing⟩ := left
    rw [Node.same, Element.same] at same
    simp only [Bool.and_eq_true, beq_iff_eq] at same
    obtain ⟨⟨⟨⟨identifier, selfClosing⟩, lengths⟩, within⟩, children⟩ := same
    cases wellFormed with
    | element distinct propsWellFormed childrenWellFormed =>
      have counterparts : ∀ pair ∈ props, ∃ other,
          Bindings.get? right.props pair.1 = some other ∧ SameTree pair.2 other := by
        intro pair member
        obtain ⟨other, found, same⟩ := propsWithin_iff.mp within pair member
        exact ⟨other, found, propsWellFormed pair member, same⟩
      obtain ⟨arranged, order, alike⟩ :=
        Bindings.exists_perm_forall₂ distinct lengths counterparts
      refine ⟨right, arranged, rfl, identifier, selfClosing, ?_, order, alike, ?_⟩
      · exact Bindings.names_eq_of_forall₂ alike ▸ distinct
      · exact forall₂_imp_of_mem (sameChildren_iff.mp children) fun child member other same =>
          ⟨childrenWellFormed child member, same⟩

end SameTree

/-! ### Equal trees compare alike -/

namespace SameElement

variable {left right : Element} {arranged : List (String × Node)}
  (same : SameElement left right arranged)

include same

theorem prop? (name : String) : Option.Rel SameTree (left.prop? name) (right.prop? name) := by
  rw [Element.prop?, Element.prop?, ← Bindings.get?_eq_of_perm same.distinct same.order]
  exact Bindings.rel_get? same.props name

/-- The properties are put in order, where they compare one by one, and back again. -/
theorem propsAgree (parts : ∀ part ∈ left.parts, ∀ other, SameTree part other →
    Comparison.upToOrder.Agree part other) : Comparison.upToOrder.PropsAgree left right := by
  have ordered : Comparison.upToOrder.PropsAgree left { right with props := arranged } :=
    Comparison.propsAgree_of_forall₂ same.identifier same.selfClosing same.props parts
  have assigned : ({ right with props := arranged } : Element).assignedProps.Perm
      right.assignedProps := (same.order.filter _).map _
  refine ⟨ordered.prototype, fun depth => ?_, fun indentation => ?_⟩
  · exact (ordered.steps depth).trans (assigned.flatMap_right _)
  · refine (ordered.rows indentation).trans ?_
    exact ((assigned.map _).append_left _).flatMap_right _

end SameElement

theorem correspondence_sameTree : Correspondence SameTree where
  kind {left right} same := by
    cases left with
    | leaf content => rw [same.leaf]
    | element left =>
      obtain ⟨right, _, rfl, -⟩ := same.element
      rfl
  literal {left right} same := by
    cases left with
    | leaf content => rw [same.leaf]
    | element left =>
      obtain ⟨right, _, rfl, -⟩ := same.element
      rfl
  payload {left right} control same := by
    cases left with
    | leaf content =>
      rw [same.leaf]
      exact .none
    | element left =>
      obtain ⟨right, _, rfl, sameElement⟩ := same.element
      exact sameElement.prop? control.name
  significant {left right} same := by
    cases left with
    | leaf content =>
      rw [same.leaf]
      cases survives : (Node.leaf content).significant? with
      | none => exact .none
      | some kept =>
        have ⟨other, leaf⟩ : ∃ other, kept = .leaf other := by
          rcases Node.significant?_eq_some survives with ⟨text, -, rfl⟩ | ⟨rfl, -⟩
          · exact ⟨_, rfl⟩
          · exact ⟨_, rfl⟩
        exact leaf ▸ .some ⟨.leaf other, by rw [Node.same, beq_self_eq_true]⟩
    | element left =>
      obtain ⟨right, _, rfl, -⟩ := same.element
      exact .some same

theorem agree_of_sameTree {left right : Node} (same : SameTree left right) :
    Comparison.upToOrder.Agree left right := by
  induction left using Node.induction generalizing right with
  | leaf content =>
    rw [same.leaf]
    exact Comparison.agree_refl _
  | element element inductionHypothesis =>
    obtain ⟨other, arranged, rfl, sameElement⟩ := same.element
    have parts : ∀ part ∈ element.parts, ∀ other, SameTree part other →
        Comparison.upToOrder.Agree part other :=
      fun part member _ same => inductionHypothesis part member same
    exact Element.agree correspondence_sameTree (sameElement.prop? _) sameElement.children
      (sameElement.propsAgree parts) parts

/-! ### Documents -/

theorem siblingsAgree_of_same {left right : List Node}
    (wellFormed : ∀ node ∈ left, node.WellFormed)
    (same : List.Forall₂ (fun node other => (node == other) = true) left right) :
    Comparison.upToOrder.SiblingsAgree (Siblings.significant left)
      (Siblings.significant right) := by
  have alike : List.Forall₂ SameTree left right :=
    forall₂_imp_of_mem same fun node member _ equal => ⟨wellFormed node member, equal⟩
  exact Siblings.agree correspondence_sameTree
    ((correspondence_sameTree.forall₂_significant alike).imp
      fun _ _ same => ⟨same, agree_of_sameTree same⟩)

/-- Equal documents render to the same lines: at any indentation and under any limit the one
renders when the other does, and then their texts have the same lines, in any order but for the
first one and the last one. -/
theorem render_same (settings : Settings) {left right : List Node}
    (wellFormed : ∀ node ∈ left, node.WellFormed)
    (same : List.Forall₂ (fun node other => (node == other) = true) left right) :
    ((∃ text, (settings.render left).result = .ok text) ↔
        ∃ text, (settings.render right).result = .ok text) ∧
      ∀ text other, (settings.render left).result = .ok text →
        (settings.render right).result = .ok other → Text.SameLines text.toList other.toList := by
  obtain ⟨steps, outlines⟩ := siblingsAgree_of_same wellFormed same
  refine ⟨?_, fun text other renders rendersOther => ?_⟩
  · have order : (documentJournal left).Perm (documentJournal right) := steps 0
    rw [render_eq_follow, render_eq_follow, follow_succeeds_iff, follow_succeeds_iff]
    simp only [order.mem_iff]
  · rw [eq_print_of_render_ok renders, eq_print_of_render_ok rendersOther]
    exact outlines settings.indentation

/-- The properties of an element and those of an element in a property are given in two orders,
and a text in a property is written on two lines. -/
theorem render_same_reordered :
    let spread := Node.leaf (.text "1\n2")
    let code := Node.leaf (.expression "f")
    let shown := Node.leaf (.boolean true)
    let left := [Node.element ⟨"V:A", [("x", spread), ("@key", .leaf (.literal "k")),
      ("y", .element ⟨"V:B", [("p", code), ("q", shown)], [], false⟩)], [code], false⟩]
    let right := [Node.element ⟨"V:A", [("y", .element ⟨"V:B", [("q", shown), ("p", code)], [],
      false⟩), ("@key", .leaf (.literal "k")), ("x", spread)], [code], false⟩]
    let settings : Settings := ⟨"", some 2⟩
    let text := "V:A \x7b\n    x = '1\n2'\n    y = V:B \x7b\n        p = $\x7bf\x7d\n" ++
      "        q = true\n    \x7d\n    content = $\x7bf\x7d\n\x7d"
    let other := "V:A \x7b\n    y = V:B \x7b\n        q = true\n        p = $\x7bf\x7d\n" ++
      "    \x7d\n    x = '1\n2'\n    content = $\x7bf\x7d\n\x7d"
    (∀ node ∈ left, node.WellFormed) ∧
      List.Forall₂ (fun node other => (node == other) = true) left right ∧
      (settings.render left).result = .ok text ∧ (settings.render right).result = .ok other ∧
      Text.SameLines text.toList other.toList := by
  intro spread code shown left right settings text other
  have wellFormed : ∀ node ∈ left, node.WellFormed := by decide +kernel
  have same : List.Forall₂ (fun node other => (node == other) = true) left right :=
    .cons (by decide +kernel) .nil
  have renders : (settings.render left).result = .ok text := by decide +kernel
  have rendersOther : (settings.render right).result = .ok other := by decide +kernel
  exact ⟨wellFormed, same, renders, rendersOther,
    (render_same settings wellFormed same).2 text other renders rendersOther⟩

end MarkupBlocks
