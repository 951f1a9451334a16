/-
Texts that are stripped in parts, and from right to left.

When two texts are put together, the white space at the end of the first and the white space at the
start of the second become one run. That is the only thing that stripping can see of the seam: a
line break on one side takes the white space on the other side with it, which would have stayed if
the parts had been stripped on their own. A run is the same run from either end, so there is no
left or right to stripping, although a pass reads from left to right.
-/

import MarkupBlocks.Proofs.Runs

namespace MarkupBlocks.Text

/-! ### The seam of two texts -/

/-- What stands in front of the white space at the end of a text is stripped on its own. -/
theorem stripLayoutChars_rdropWhile_append (chars rest : List Char) :
    stripLayoutChars (chars.rdropWhile isBlank ++ rest) =
      stripLayoutChars (chars.rdropWhile isBlank) ++ stripLayoutChars rest :=
  stripLayoutChars_append <| Or.inl fun _ ending =>
    (Bool.not_eq_true' _).mpr (eq_false_of_mem_getLast?_rdropWhile ending)

/-- What follows the white space at the start of a text is stripped on its own. -/
theorem stripLayoutChars_append_dropWhile (before chars : List Char) :
    stripLayoutChars (before ++ chars.dropWhile isBlank) =
      stripLayoutChars before ++ stripLayoutChars (chars.dropWhile isBlank) :=
  stripLayoutChars_append <| Or.inr fun _ starting =>
    (Bool.not_eq_true' _).mpr (eq_false_of_mem_head?_dropWhile starting)

/-- White space that is put together is stripped as its parts are, unless there is some in both and
only one of them breaks a line. -/
theorem stripLayoutChars_blank_append_iff {ending start : List Char}
    (blankEnding : ∀ char ∈ ending, isBlank char = true)
    (blankStart : ∀ char ∈ start, isBlank char = true) :
    stripLayoutChars (ending ++ start) = stripLayoutChars ending ++ stripLayoutChars start ↔
      ¬ (ending ≠ [] ∧ start ≠ [] ∧ ¬ ('\n' ∈ ending ↔ '\n' ∈ start)) := by
  rw [stripLayoutChars_blank (List.forall_mem_append.mpr ⟨blankEnding, blankStart⟩),
    stripLayoutChars_blank blankEnding, stripLayoutChars_blank blankStart]
  by_cases first : '\n' ∈ ending <;> by_cases second : '\n' ∈ start
  · simp [first, second]
  · -- The white space that follows the line break goes with it.
    have some : ending ≠ [] := List.ne_nil_of_mem first
    simp [first, second, some, eq_comm]
  · have some : start ≠ [] := List.ne_nil_of_mem second
    simp [first, second, some, eq_comm]
  · simp [first, second]

/-- The seam of two texts shows in the white space around it only. -/
theorem stripLayoutChars_append_iff (left right : List Char) :
    stripLayoutChars (left ++ right) = stripLayoutChars left ++ stripLayoutChars right ↔
      ¬ (left.rtakeWhile isBlank ≠ [] ∧ right.takeWhile isBlank ≠ [] ∧
        ¬ ('\n' ∈ left.rtakeWhile isBlank ↔ '\n' ∈ right.takeWhile isBlank)) := by
  have lefts := List.rdropWhile_append_rtakeWhile (p := isBlank) (l := left)
  have rights := List.takeWhile_append_dropWhile (p := isBlank) (l := right)
  generalize ended : left.rtakeWhile isBlank = ending at lefts ⊢
  generalize started : right.takeWhile isBlank = start at rights ⊢
  have whole : stripLayoutChars (left ++ right) =
      stripLayoutChars (left.rdropWhile isBlank) ++
        (stripLayoutChars (ending ++ start) ++ stripLayoutChars (right.dropWhile isBlank)) := by
    rw [← stripLayoutChars_append_dropWhile, ← stripLayoutChars_rdropWhile_append,
      List.append_assoc, rights, ← List.append_assoc, lefts]
  have parts : stripLayoutChars left ++ stripLayoutChars right =
      stripLayoutChars (left.rdropWhile isBlank) ++
        ((stripLayoutChars ending ++ stripLayoutChars start) ++
          stripLayoutChars (right.dropWhile isBlank)) := by
    rw [List.append_assoc, ← stripLayoutChars_append_dropWhile, rights, ← List.append_assoc,
      ← stripLayoutChars_rdropWhile_append, lefts]
  rw [whole, parts, List.append_cancel_left_eq, List.append_cancel_right_eq]
  exact stripLayoutChars_blank_append_iff (ended ▸ fun _ => List.mem_rtakeWhile_imp)
    (started ▸ fun _ => List.mem_takeWhile_imp)

/-! ### From right to left -/

/-- Read from right to left, a text has the same runs, each read from right to left. -/
theorem AreRuns.reverse {pieces : List (List Char)} {chars : List Char}
    (areRuns : AreRuns pieces chars) : AreRuns (pieces.map List.reverse).reverse chars.reverse where
  whole := by rw [← List.reverse_flatten, areRuns.whole]
  nonempty := by
    simp only [List.mem_reverse, List.forall_mem_map]
    exact fun piece member => mt List.reverse_eq_nil_iff.mp (areRuns.nonempty piece member)
  uniform := by
    simp only [Uniform, List.mem_reverse, List.forall_mem_map]
    exact areRuns.uniform
  maximal := by
    rw [List.isChain_reverse, List.isChain_map]
    refine areRuns.maximal.imp fun before after different right inAfter left inBefore same => ?_
    exact different left (List.mem_reverse.mp inBefore) right (List.mem_reverse.mp inAfter)
      same.symm

theorem breaksLine_reverse (run : List Char) : breaksLine run.reverse = breaksLine run := by
  rw [breaksLine, breaksLine, List.all_reverse, List.contains_reverse]

theorem stripLayoutChars_reverse (chars : List Char) :
    stripLayoutChars chars.reverse = (stripLayoutChars chars).reverse := by
  have areRuns := areRuns_runs chars
  rw [areRuns.reverse.stripLayoutChars_eq, areRuns.stripLayoutChars_eq, List.filter_reverse,
    List.filter_map, List.reverse_flatten]
  simp only [Function.comp_def, breaksLine_reverse]

/-- Two texts may be stripped before they are put together unless there is white space on both sides
of the seam and a line break on one side of it only. A text that is read from right to left is
stripped to what is left of it, read from right to left. -/
theorem stripLayout_append_iff (left right : String) :
    (stripLayout (left ++ right) = stripLayout left ++ stripLayout right ↔
      ¬ (left.toList.rtakeWhile isBlank ≠ [] ∧ right.toList.takeWhile isBlank ≠ [] ∧
        ¬ ('\n' ∈ left.toList.rtakeWhile isBlank ↔ '\n' ∈ right.toList.takeWhile isBlank))) ∧
    ∀ text : String, stripLayout (String.ofList text.toList.reverse) =
      String.ofList (stripLayout text).toList.reverse := by
  refine ⟨?_, fun text => ?_⟩
  · rw [← stripLayoutChars_append_iff, ← String.toList_inj]
    simp only [stripLayout, String.toList_append, String.toList_ofList]
  · rw [stripLayout, stripLayout, String.toList_ofList, String.toList_ofList,
      stripLayoutChars_reverse]

end MarkupBlocks.Text
