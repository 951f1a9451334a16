/-
The depth limit is a threshold.

A run without a limit enters elements until it ends or meets a fault, and the deepest level
that it enters is all that a limit can see of it. A limit at that level or above it is never
met, so the run is the same; a limit below it is met before the run is over, so the run stops
there with what it has reported until then. Elements that the run never enters do not count:
the journal does not list those in control properties and in children whose path is taken by
a later one, and what it lists after the first fault is not reached.
-/

import Mathlib.Order.MinMax
import MarkupBlocks.Proofs.Journal

namespace MarkupBlocks

/-- The deepest level that a journal enters before a fault; zero when it enters none. -/
def deepest : List Step → Nat
  | [] => 0
  | .enter level :: rest => max level (deepest rest)
  | .event _ :: rest => deepest rest
  | .fault _ :: _ => 0

/-- The deepest level of any element that is entered when a document is rendered without a
limit. -/
def enteredDepth (nodes : List Node) : Nat :=
  deepest (documentJournal nodes)

theorem checkLevel_of_le {limit level : Nat} (within : level ≤ limit) :
    checkLevel (some limit) level = pure () :=
  if_neg (Nat.not_lt.mpr within)

theorem checkLevel_of_lt {limit level : Nat} (beyond : limit < level) :
    checkLevel (some limit) level = Traced.fail (.tooDeep limit) :=
  if_pos beyond

section Follow

variable {Result : Type} {limit : Nat}

/-- A limit that no entered level exceeds is never met. -/
theorem follow_eq_of_deepest_le {steps : List Step} (within : deepest steps ≤ limit)
    (value : Result) : follow (some limit) steps value = follow none steps value := by
  induction steps with
  | nil => rfl
  | cons step rest inductionHypothesis =>
    cases step with
    | enter level =>
      have both := Nat.max_le.mp within
      rw [follow, follow, checkLevel_of_le both.1, inductionHypothesis both.2]
      rfl
    | event event => rw [follow, follow, inductionHypothesis within]
    | fault fault => rfl

/-- A limit that an entered level exceeds stops the run at the first such level, and what was
reported until then is what the unlimited run reports there. -/
theorem follow_of_lt_deepest {steps : List Step} (beyond : limit < deepest steps)
    (value : Result) :
    (follow (some limit) steps value).result = .error (.tooDeep limit) ∧
      (follow (some limit) steps value).events <+: (follow none steps value).events := by
  induction steps with
  | nil => exact absurd beyond (Nat.not_lt_zero limit)
  | cons step rest inductionHypothesis =>
    cases step with
    | enter level =>
      by_cases met : limit < level
      · rw [follow, checkLevel_of_lt met]
        exact ⟨rfl, List.nil_prefix⟩
      · have later : limit < deepest rest :=
          (lt_max_iff.mp beyond).resolve_left met
        rw [follow, checkLevel_of_le (Nat.not_lt.mp met)]
        exact inductionHypothesis later
    | event event =>
      obtain ⟨stops, reported⟩ := inductionHypothesis beyond
      exact ⟨stops, List.prefix_cons_inj event |>.mpr reported⟩
    | fault fault => exact absurd beyond (Nat.not_lt_zero limit)

end Follow

/-- Rendering without a limit decides what every limit does: from the deepest level that is
entered upwards a limit changes nothing, and below it the run ends in the fault of the limit,
having reported a first part of what is reported without one. -/
theorem render_limit_threshold (indentation : String) (nodes : List Node) :
    (∀ limit, enteredDepth nodes ≤ limit →
      Settings.render ⟨indentation, some limit⟩ nodes =
        Settings.render ⟨indentation, none⟩ nodes) ∧
    ∀ limit, limit < enteredDepth nodes →
      (Settings.render ⟨indentation, some limit⟩ nodes).result = .error (.tooDeep limit) ∧
        (Settings.render ⟨indentation, some limit⟩ nodes).events <+:
          (Settings.render ⟨indentation, none⟩ nodes).events := by
  simp only [render_eq_follow]
  refine ⟨fun limit within => ?_, fun limit beyond => ?_⟩
  · exact follow_eq_of_deepest_le within _
  · exact follow_of_lt_deepest beyond _

/-- Two levels are entered. The elements in a key and in a child whose path is taken by a later
child lie deeper and are not. -/
theorem render_limit_threshold_two :
    let inner := Node.element ⟨"c", [], [], false⟩
    let routed (children : List Node) :=
      Node.element ⟨"b", [("@path", .leaf (.literal "p"))], children, false⟩
    let nodes :=
      [Node.element ⟨"a", [("@key", routed [inner])], [routed [inner], routed []], false⟩]
    Settings.render ⟨"", some 2⟩ nodes = Settings.render ⟨"", none⟩ nodes ∧
      (Settings.render ⟨"", some 1⟩ nodes).result = .error (.tooDeep 1) ∧
      (Settings.render ⟨"", some 1⟩ nodes).events <+:
        (Settings.render ⟨"", none⟩ nodes).events := by
  intro inner routed nodes
  have entered : enteredDepth nodes = 2 := by decide +kernel
  have threshold := render_limit_threshold "" nodes
  exact ⟨threshold.1 2 (le_of_eq entered), threshold.2 1 (entered ▸ Nat.lt_succ_self 1)⟩

end MarkupBlocks
