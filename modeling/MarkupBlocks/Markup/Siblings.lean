/-
Siblings that mean something.

Markup is laid out on lines, so there is text between siblings that holds nothing but line
breaks and indentation. Among siblings every text is stripped of its layout, and a text of
which nothing is left is not a sibling at all. Text that is the value of a property is not
laid out and is never stripped.
-/

import MarkupBlocks.Text.Layout
import MarkupBlocks.Markup.Tree

namespace MarkupBlocks

/-- What a node amounts to among siblings: a text loses its layout and is dropped when nothing
else was in it, any other node is what it is. -/
def Node.significant? : Node → Option Node
  | .leaf (.text text) =>
    let kept := Text.stripLayout text
    if kept.isEmpty then none else some (.leaf (.text kept))
  | node => some node

/-- Stripping a text changes no size. -/
theorem size_of_significant? {node kept : Node} (survives : node.significant? = some kept) :
    kept.size = node.size := by
  unfold Node.significant? at survives
  split at survives
  · simp only at survives
    split at survives
    · exact absurd survives nofun
    · rw [← Option.some.inj survives, Node.size, Node.size]
  · rw [Option.some.inj survives]

namespace Siblings

/-- The siblings that mean something, in order. -/
def significant (nodes : List Node) : List Node :=
  nodes.filterMap Node.significant?

theorem significant_append (left right : List Node) :
    significant (left ++ right) = significant left ++ significant right :=
  List.filterMap_append

/-- Each sibling that means something is kept in its place. -/
theorem significant_append_cons (before : List Node) (node : Node) (after : List Node) :
    significant (before ++ node :: after) =
      significant before ++ (node.significant?.toList ++ significant after) := by
  rw [significant_append, significant, significant, List.filterMap_cons]
  cases node.significant? <;> rfl

/-- Dropping siblings adds no node. -/
theorem childrenSize_significant_le (nodes : List Node) :
    childrenSize (significant nodes) ≤ childrenSize nodes := by
  induction nodes with
  | nil => exact Nat.le_refl _
  | cons head rest inductionHypothesis =>
    unfold significant at inductionHypothesis ⊢
    rw [List.filterMap_cons]
    split
    · exact Nat.le_trans inductionHypothesis (Nat.le_add_left _ _)
    · next kept survives =>
      simp only [childrenSize, size_of_significant? survives]
      omega

end Siblings

end MarkupBlocks
