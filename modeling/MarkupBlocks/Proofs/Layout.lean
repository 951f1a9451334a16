/-
What is left of a text without its layout.

Layout goes run by run, and a run goes when it breaks a line. So nothing that is left breaks a
line, a text without line breaks is left as it is, and a text that is nothing but one run of
white space with a line break in it is gone.
-/

import Mathlib.Data.List.SplitBy
import MarkupBlocks.Text.Layout

namespace MarkupBlocks.Text

/-- A text that is white space only and breaks a line. -/
def IsLayout (text : String) : Prop :=
  '\n' ∈ text.toList ∧ ∀ char ∈ text.toList, isBlank char = true

instance (text : String) : Decidable (IsLayout text) :=
  -- The characters of the text are tested, and not all characters that there are.
  have : Decidable (∀ char ∈ text.toList, isBlank char = true) := List.decidableBAll _ _
  inferInstanceAs (Decidable (_ ∧ _))

theorem newline_notMem_stripLayout (text : String) :
    '\n' ∉ (stripLayout text).toList := by
  rw [stripLayout, String.toList_ofList, stripLayoutChars]
  intro member
  obtain ⟨run, kept, within⟩ := List.mem_flatten.mp member
  have free := (List.mem_filter.mp kept).2
  rw [List.contains_iff_mem.mpr within] at free
  exact absurd free (by decide)

theorem stripLayoutChars_of_notMem {chars : List Char} (oneLine : '\n' ∉ chars) :
    stripLayoutChars chars = chars := by
  have whole : (runs chars).flatten = chars := List.flatten_splitBy _ _
  have kept : (runs chars).filter (fun run => !run.contains '\n') = runs chars := by
    refine List.filter_eq_self.mpr fun run member => ?_
    rw [Bool.not_eq_true', Bool.eq_false_iff]
    intro breaks
    refine oneLine (whole ▸ List.mem_flatten.mpr ⟨run, member, List.contains_iff_mem.mp breaks⟩)
  rw [stripLayoutChars, kept, whole]

theorem stripLayout_of_notMem {text : String} (oneLine : '\n' ∉ text.toList) :
    stripLayout text = text := by
  rw [stripLayout, stripLayoutChars_of_notMem oneLine, String.ofList_toList]

/-- There is nothing left to strip. -/
theorem stripLayout_stripLayout (text : String) :
    stripLayout (stripLayout text) = stripLayout text :=
  stripLayout_of_notMem (newline_notMem_stripLayout text)

/-- White space is one run, which goes as a whole when it breaks a line. -/
theorem stripLayoutChars_of_blank {chars : List Char} (breaks : '\n' ∈ chars)
    (blank : ∀ char ∈ chars, isBlank char = true) : stripLayoutChars chars = [] := by
  have oneRun : runs chars = [chars] := by
    refine List.splitBy_of_isChain (List.ne_nil_of_mem breaks) ?_
    refine List.Pairwise.isChain
      (List.pairwise_of_forall_mem_list fun left first right second => ?_)
    rw [blank left first, blank right second, BEq.rfl]
  rw [stripLayoutChars, oneRun, List.filter_singleton, List.contains_iff_mem.mpr breaks]
  rfl

theorem stripLayout_of_isLayout {text : String} (layout : IsLayout text) :
    stripLayout text = "" := by
  rw [stripLayout, stripLayoutChars_of_blank layout.1 layout.2, String.ofList_nil]

end MarkupBlocks.Text
