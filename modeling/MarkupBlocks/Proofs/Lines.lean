/-
Texts up to the order of their lines.

A line feed parts the lines before it from those after it, and every assignment of a block ends in
one. So the lines of a block are the line that opens it, the lines of its assignments one after
another, and the line that closes it. Assignments in another order give the same lines in another
order. The value of an assignment starts on the line of its name, so while the other lines of a
value may change places, its first line must stay the first: it is part of what is compared.
-/

import Mathlib.Data.List.Basic
import MarkupBlocks.Proofs.Comparisons
import MarkupBlocks.Proofs.Printing

namespace MarkupBlocks

namespace Text

/-- The lines of a text, which are what stands before, between and after its line feeds. -/
def lines (chars : List Char) : List (List Char) :=
  chars.splitOn '\n'

theorem lines_ne_nil (chars : List Char) : lines chars ≠ [] :=
  List.splitOnP_ne_nil _ chars

theorem lines_append_newline (before after : List Char) :
    lines (before ++ '\n' :: after) = lines before ++ lines after :=
  List.splitOnP_append_cons before after (beq_self_eq_true '\n')

theorem lines_cons_of_ne {char : Char} (other : char ≠ '\n') (rest : List Char) :
    lines (char :: rest) = (lines rest).modifyHead (char :: ·) := by
  rw [lines, List.splitOn, List.splitOnP_cons_eq_if_modifyHead,
    if_neg fun equal => other (eq_of_beq equal)]
  rfl

theorem lines_append_of_notMem {before : List Char} (line : '\n' ∉ before) (after : List Char) :
    lines (before ++ after) = (lines after).modifyHead (before ++ ·) := by
  induction before with
  | nil =>
    obtain ⟨head, rest, parted⟩ := List.exists_cons_of_ne_nil (lines_ne_nil after)
    rw [List.nil_append, parted]
    rfl
  | cons char rest inductionHypothesis =>
    rw [List.mem_cons, not_or] at line
    obtain ⟨head, others, parted⟩ := List.exists_cons_of_ne_nil (lines_ne_nil after)
    rw [List.cons_append, lines_cons_of_ne (Ne.symm line.1), inductionHypothesis line.2, parted]
    rfl

theorem lines_of_notMem {chars : List Char} (line : '\n' ∉ chars) : lines chars = [chars] :=
  List.splitOnP_eq_singleton fun char member =>
    beq_eq_false_iff_ne.mpr fun same : char = '\n' => line (same ▸ member)

/-- Two texts have the same lines, in any order but for the first one and the last one. -/
structure SameLines (left right : List Char) : Prop where
  lines : (lines left).Perm (lines right)
  first : (Text.lines left).head? = (Text.lines right).head?
  last : (Text.lines left).getLast? = (Text.lines right).getLast?

namespace SameLines

theorem refl (chars : List Char) : SameLines chars chars :=
  ⟨.refl _, rfl, rfl⟩

theorem trans {left middle right : List Char} (before : SameLines left middle)
    (after : SameLines middle right) : SameLines left right :=
  ⟨before.lines.trans after.lines, before.first.trans after.first, before.last.trans after.last⟩

/-- A character put in front stands in the first line of both texts, or ends a line of its own. -/
theorem cons (char : Char) {left right : List Char} (same : SameLines left right) :
    SameLines (char :: left) (char :: right) := by
  by_cases newline : char = '\n'
  · have parted (chars : List Char) : Text.lines ('\n' :: chars) = [] :: Text.lines chars :=
      lines_append_newline [] chars
    subst newline
    refine ⟨?_, ?_, ?_⟩
    · rw [parted, parted]
      exact same.lines.cons []
    · rw [parted, parted]
      rfl
    · rw [parted, parted, List.getLast?_cons, List.getLast?_cons, same.last]
  · obtain ⟨lines, first, last⟩ := same
    obtain ⟨head, rest, leftLines⟩ := List.exists_cons_of_ne_nil (lines_ne_nil left)
    obtain ⟨other, others, rightLines⟩ := List.exists_cons_of_ne_nil (lines_ne_nil right)
    rw [leftLines, rightLines] at lines first last
    obtain rfl : head = other := Option.some.inj first
    have remaining := lines.cons_inv
    refine ⟨?_, ?_, ?_⟩ <;>
      rw [lines_cons_of_ne newline, lines_cons_of_ne newline, leftLines, rightLines,
        List.modifyHead_cons, List.modifyHead_cons]
    · exact remaining.cons _
    · rfl
    -- The first line is the last one as well when there is no other, and then it is in both texts.
    · cases rest with
      | nil => rw [remaining.nil_eq]
      | cons second rest =>
        cases others with
        | nil => exact absurd remaining.eq_nil (List.cons_ne_nil _ _)
        | cons another others =>
          rwa [List.getLast?_cons_cons, List.getLast?_cons_cons] at last ⊢

theorem append_left (before : List Char) {left right : List Char} (same : SameLines left right) :
    SameLines (before ++ left) (before ++ right) := by
  induction before with
  | nil => exact same
  | cons char rest inductionHypothesis => exact inductionHypothesis.cons char

end SameLines

end Text

/-! ### Lines of written outlines -/

/-- The lines of an assignment on a line with the indentation given. -/
def assignmentLines (indentation : String) (assignment : String × Outline) : List (List Char) :=
  Text.lines (indentation.toList ++ assignment.1.toList ++ [' ', '=', ' '] ++
    assignment.2.chars indentation)

theorem lines_assignmentChars (indentation : String) (assignments : List (String × Outline))
    (after : List Char) :
    Text.lines (assignmentChars indentation assignments ++ after) =
      assignments.flatMap (assignmentLines indentation) ++ Text.lines after := by
  induction assignments with
  | nil => rfl
  | cons head rest inductionHypothesis =>
    obtain ⟨name, outline⟩ := head
    have parted (line : List Char) :
        line ++ ['\n'] ++ assignmentChars indentation rest ++ after =
          line ++ '\n' :: (assignmentChars indentation rest ++ after) := by
      rw [List.append_assoc, List.append_assoc]
      rfl
    rw [assignmentChars_cons, List.flatMap_cons, parted, Text.lines_append_newline,
      inductionHypothesis]
    exact (List.append_assoc _ _ _).symm

/-- The lines of a block are the line that opens it, those of its assignments, and the line that
closes it. -/
theorem Outline.lines_block (indentation prototype : String)
    (assignments : List (String × Outline)) :
    Text.lines ((Outline.block prototype assignments).chars indentation) =
      Text.lines (prototype.toList ++ [' ', '\x7b']) ++
        (assignments.flatMap (assignmentLines (indentation ++ indentStep)) ++
          Text.lines (indentation.toList ++ ['\x7d'])) := by
  rw [← lines_assignmentChars, ← Text.lines_append_newline, Outline.chars_block]
  simp only [List.append_assoc, List.cons_append, List.nil_append]

/-! ### Comparing up to order -/

/-- Trees are the same when their journals list the same steps in some order, and when their
outlines are written in the same lines at every indentation. -/
def Comparison.upToOrder : Comparison where
  SameSteps := List.Perm
  SameRows left right := ∀ indentation : String,
    (left.flatMap (assignmentLines indentation)).Perm (right.flatMap (assignmentLines indentation))
  SameOutline left right := ∀ indentation : String,
    Text.SameLines (left.chars indentation) (right.chars indentation)
  joinsSteps := {
    refl := .refl
    append := .append }
  joinsRows := {
    refl := fun _ _ => .refl _
    append := fun first second indentation => by
      rw [List.flatMap_append, List.flatMap_append]
      exact (first indentation).append (second indentation) }
  transSteps := .trans
  transOutline before after indentation := (before indentation).trans (after indentation)
  leaf _ _ := .refl _
  assign same indentation := by
    rw [List.flatMap_singleton, List.flatMap_singleton]
    exact ((same indentation).append_left _).lines
  block {prototype _ _} same indentation := by
    have opening := Text.lines_ne_nil (prototype.toList ++ [' ', '\x7b'])
    have closing := Text.lines_ne_nil (indentation.toList ++ ['\x7d'])
    refine ⟨?_, ?_, ?_⟩ <;> rw [Outline.lines_block, Outline.lines_block]
    · exact ((same _).append_right _).append_left _
    · rw [List.head?_append_of_ne_nil _ opening, List.head?_append_of_ne_nil _ opening]
    · rw [← List.append_assoc, ← List.append_assoc, List.getLast?_append_of_ne_nil _ closing,
        List.getLast?_append_of_ne_nil _ closing]

end MarkupBlocks
