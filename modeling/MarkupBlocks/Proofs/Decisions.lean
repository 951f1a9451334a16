/-
What decides how a run ends.

Events are reported and change nothing. So a run ends as its journal says without the events, and
two documents with one outline and one journal but for the events render to the same text or the
same fault. It succeeds when every other step lets it pass. For an element this leaves little of its
children to matter: which payloads of paths cannot be read, the routed children, whether there is
any content, and what of it means something.
-/

import MarkupBlocks.Proofs.Comparisons

namespace MarkupBlocks

/-- Whether a step can end a run. -/
def Step.decides : Step → Bool
  | .event _ => false
  | .enter _ | .fault _ => true

theorem follow_filter_decides {Result : Type} (limit : Option Nat) (steps : List Step)
    (value : Result) :
    (follow limit (steps.filter Step.decides) value).result =
      (follow limit steps value).result := by
  induction steps with
  | nil => rfl
  | cons step rest inductionHypothesis =>
    cases step with
    | enter level =>
      rw [List.filter_cons_of_pos rfl, follow, follow]
      cases passes : (checkLevel limit level).result with
      | ok checked =>
        rw [Traced.bind_of_ok passes, Traced.bind_of_ok passes]
        exact inductionHypothesis
      | error fault => rw [Traced.bind_of_error passes, Traced.bind_of_error passes]
    | event event =>
      rw [List.filter_cons_of_neg Bool.false_ne_true]
      exact inductionHypothesis
    | fault fault => rfl

/-- A document ends as its journal says without the events: in a fault, or in its assignment tree as
it is written. -/
theorem render_result_eq (settings : Settings) (nodes : List Node) :
    (settings.render nodes).result =
      (follow settings.maxDepth ((documentJournal nodes).filter Step.decides) ()).result.map
        fun _ => (assignmentTree nodes).print settings.indentation := by
  rw [render_eq_follow, follow_eq_map, follow_filter_decides]

/-- Documents that agree in all that decides end alike under every limit. -/
theorem render_result_eq_of_agree {left right : List Node}
    (agree : (Comparison.upTo Step.decides).SiblingsAgree (Siblings.significant left)
      (Siblings.significant right)) (settings : Settings) :
    (settings.render left).result = (settings.render right).result := by
  have steps : (documentJournal left).filter Step.decides =
      (documentJournal right).filter Step.decides := agree.1 0
  have tree : assignmentTree left = assignmentTree right := congrArg Outline.value agree.2
  rw [render_result_eq, render_result_eq, steps, tree]

/-! ### Runs that succeed -/

/-- A step lets a run with a limit pass. -/
def Step.Passes (limit : Option Nat) : Step → Prop
  | .enter level => (checkLevel limit level).result = .ok ()
  | .event _ => True
  | .fault _ => False

/-- A run succeeds exactly when every step of its journal lets it pass. -/
theorem follow_succeeds_iff {Result : Type} (limit : Option Nat) (steps : List Step)
    (value : Result) :
    (∃ result, (follow limit steps value).result = .ok result) ↔
      ∀ step ∈ steps, step.Passes limit := by
  induction steps with
  | nil =>
    rw [follow_nil]
    exact iff_of_true ⟨value, rfl⟩ fun step member => absurd member List.not_mem_nil
  | cons step rest inductionHypothesis =>
    rw [List.forall_mem_cons, ← inductionHypothesis]
    cases step with
    | enter level =>
      rw [follow, Step.Passes]
      cases passes : (checkLevel limit level).result with
      | ok checked =>
        rw [Traced.bind_of_ok passes]
        exact (and_iff_right rfl).symm
      | error fault =>
        rw [Traced.bind_of_error passes]
        refine iff_of_false ?_ ?_
        · rintro ⟨result, ends⟩
          cases ends
        · rintro ⟨passed, -⟩
          cases passed
    | event event =>
      rw [follow, Traced.bind_of_ok (Traced.result_report event)]
      exact (and_iff_right trivial).symm
    | fault fault =>
      refine iff_of_false ?_ fun both => both.1
      rintro ⟨result, ends⟩
      cases ends

/-- A run ends in a value exactly when every step lets it pass and the value is the one that it was
to end in. -/
theorem follow_eq_ok_iff {Result : Type} {limit : Option Nat} {steps : List Step}
    {value result : Result} :
    (follow limit steps value).result = .ok result ↔
      (∀ step ∈ steps, step.Passes limit) ∧ result = value := by
  rw [← follow_succeeds_iff limit steps value]
  constructor
  · intro succeeds
    exact ⟨⟨result, succeeds⟩, eq_of_follow_ok succeeds⟩
  · rintro ⟨⟨other, succeeds⟩, rfl⟩
    rw [succeeds, eq_of_follow_ok succeeds]

/-! ### Children -/

theorem decides_of_mem_payloadSteps {control : Control} {payload : Option Node} {step : Step}
    (member : step ∈ payloadSteps control payload) : step.decides = true := by
  unfold payloadSteps at member
  split at member
  · exact absurd member List.not_mem_nil
  · split at member
    · exact absurd member List.not_mem_nil
    · rw [List.mem_singleton.mp member]
      rfl

/-- Sorting children decides only by payloads that cannot be read. -/
theorem filter_decides_pathSteps (seen : List String) (children : List Node) :
    (pathSteps seen children).filter Step.decides =
      children.flatMap fun child => payloadSteps .path (child.payload? .path) := by
  induction children generalizing seen with
  | nil => rfl
  | cons child rest inductionHypothesis =>
    rw [pathSteps, List.filter_append, List.flatMap_cons,
      List.filter_eq_self.mpr fun _ member => decides_of_mem_payloadSteps member]
    refine congrArg _ ?_
    cases child.path? with
    | none => exact inductionHypothesis seen
    | some path =>
      rw [List.filter_append, inductionHypothesis (path :: seen)]
      split
      · rfl
      · rfl

theorem filter_decides_classifySteps (children : List Node) :
    (classifySteps children).filter Step.decides =
      children.flatMap fun child => payloadSteps .path (child.payload? .path) := by
  rw [classifySteps, List.filter_append, filter_decides_pathSteps]
  exact List.append_nil _

/-- What of the children of an element decides anything. -/
structure SameChildren (left right : List Node) : Prop where
  paths : (left.flatMap fun child => payloadSteps .path (child.payload? .path)) =
    right.flatMap fun child => payloadSteps .path (child.payload? .path)
  routed : Children.routed left = Children.routed right
  content : Siblings.significant (Children.content left) =
    Siblings.significant (Children.content right)
  isEmpty : (Children.content left).isEmpty = (Children.content right).isEmpty

/-- Elements that differ in their children, but not in what decides anything, agree. -/
theorem Element.agree_of_sameChildren (element : Element) {children : List Node}
    (same : SameChildren element.children children) :
    (Comparison.upTo Step.decides).Agree (.element element)
      (.element { element with children := children }) := by
  refine Element.agree_of_childrenAgree (Or.inl rfl)
    (Comparison.propsAgree_of_free_eq rfl rfl rfl) ⟨?_, ?_, same.isEmpty, ?_⟩
  · show List.filter _ _ = List.filter _ _
    rw [filter_decides_classifySteps, filter_decides_classifySteps, same.paths]
  · show List.Forall₂ _ _ (Children.routed children)
    rw [← same.routed]
    exact List.forall₂_same.mpr fun pair _ => ⟨rfl, Comparison.agree_refl pair.2⟩
  · show (Comparison.upTo _).SiblingsAgree _ (Siblings.significant (Children.content children))
    rw [← same.content]
    exact Comparison.siblingsAgree_refl _

end MarkupBlocks
