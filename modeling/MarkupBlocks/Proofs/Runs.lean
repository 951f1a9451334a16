/-
A text without its layout, run by run and in one pass.

A text falls into maximal runs of white space and of other characters in one way only, and to strip
it is to leave out the runs of white space that break a line. White space is never merged with other
characters, so a text may be taken apart wherever that does not cut through white space, and the
parts may be stripped on their own. A pass from left to right needs no runs: it holds white space
back until it knows whether a line break belongs to it, and what it has settled for when the text
ends is the stripped text.
-/

import Mathlib.Data.List.DropRight
import Mathlib.Data.List.Induction
import MarkupBlocks.Proofs.Layout

namespace MarkupBlocks.Text

/-! ### The maximal runs of a text -/

/-- Both characters are white space, or neither is. -/
def SameKind (left right : Char) : Prop := isBlank left = isBlank right

instance (left right : Char) : Decidable (SameKind left right) :=
  inferInstanceAs (Decidable (_ = _))

instance : Trans SameKind SameKind SameKind := ⟨Eq.trans⟩

instance : Std.Symm SameKind := ⟨fun _ _ => Eq.symm⟩

/-- All characters of a piece are of one kind. -/
def Uniform (piece : List Char) : Prop :=
  ∀ left ∈ piece, ∀ right ∈ piece, SameKind left right

/-- No character of the one piece is of the kind of a character of the other. -/
def Unlike (before after : List Char) : Prop :=
  ∀ left ∈ before, ∀ right ∈ after, ¬ SameKind left right

instance (piece : List Char) : Decidable (Uniform piece) :=
  -- The characters of the piece are tested, and not all characters that there are.
  have (left : Char) : Decidable (∀ right ∈ piece, SameKind left right) := List.decidableBAll _ _
  List.decidableBAll _ _

instance (before after : List Char) : Decidable (Unlike before after) :=
  have (left : Char) : Decidable (∀ right ∈ after, ¬ SameKind left right) := List.decidableBAll _ _
  List.decidableBAll _ _

/-- The runs of a text: put together they are the text, none is empty, each is of one kind, and
neighbours are of different kinds, so that no run could be longer. -/
structure AreRuns (pieces : List (List Char)) (chars : List Char) : Prop where
  whole : pieces.flatten = chars
  nonempty : ∀ piece ∈ pieces, piece ≠ []
  uniform : ∀ piece ∈ pieces, Uniform piece
  maximal : pieces.IsChain Unlike

/-- Whether a run is white space that breaks a line. -/
def breaksLine (run : List Char) : Bool :=
  run.all isBlank && run.contains '\n'

theorem areRuns_runs (chars : List Char) : AreRuns (runs chars) chars := by
  have uniform : ∀ piece ∈ runs chars, Uniform piece := by
    intro piece member left first right second
    have alike : piece.IsChain SameKind :=
      (List.isChain_of_mem_splitBy member).imp fun _ _ same => beq_iff_eq.mp same
    exact alike.pairwise.forall_of_forall (fun char _ => (rfl : SameKind char char)) first second
  refine ⟨List.flatten_splitBy _ _, fun piece => List.ne_nil_of_mem_splitBy, uniform, ?_⟩
  refine (List.isChain_getLast_head_splitBy _ chars).imp_of_mem_imp ?_
  rintro before after present following ⟨some, other, different⟩ left inBefore right inAfter same
  refine beq_eq_false_iff_ne.mp different ?_
  calc isBlank (before.getLast some)
    _ = isBlank left := uniform before present _ (List.getLast_mem some) left inBefore
    _ = isBlank right := same
    _ = isBlank (after.head other) := uniform after following right inAfter _ (List.head_mem other)

/-- A text falls into runs in one way only. -/
theorem AreRuns.eq_runs {pieces : List (List Char)} {chars : List Char}
    (areRuns : AreRuns pieces chars) : pieces = runs chars := by
  refine (List.splitBy_eq_iff.mpr ⟨areRuns.whole.symm, ?_, ?_, ?_⟩).symm
  · exact fun empty => areRuns.nonempty [] empty rfl
  · intro piece member
    refine (List.pairwise_of_forall_mem_list fun left first right second => ?_).isChain
    exact beq_iff_eq.mpr (areRuns.uniform piece member left first right second)
  · refine areRuns.maximal.imp_of_mem_imp fun before after present following different => ?_
    have some := areRuns.nonempty before present
    have other := areRuns.nonempty after following
    exact ⟨some, other, beq_eq_false_iff_ne.mpr
      (different _ (List.getLast_mem some) _ (List.head_mem other))⟩

/-- A line feed is white space, so a run that holds one is white space that breaks a line. -/
theorem AreRuns.breaksLine_eq {pieces : List (List Char)} {chars : List Char}
    (areRuns : AreRuns pieces chars) {piece : List Char} (member : piece ∈ pieces) :
    breaksLine piece = piece.contains '\n' := by
  rw [breaksLine]
  cases breaks : piece.contains '\n' with
  | false => exact Bool.and_false _
  | true =>
    have newline : '\n' ∈ piece := List.contains_iff_mem.mp breaks
    have blank : piece.all isBlank = true :=
      List.all_eq_true.mpr fun char within => areRuns.uniform piece member char within _ newline
    rw [blank, Bool.and_true]

/-- To strip a text is to leave out the runs of white space that break a line. -/
theorem AreRuns.stripLayoutChars_eq {pieces : List (List Char)} {chars : List Char}
    (areRuns : AreRuns pieces chars) :
    stripLayoutChars chars = (pieces.filter fun piece => !breaksLine piece).flatten := by
  rw [stripLayoutChars, ← areRuns.eq_runs]
  refine congrArg List.flatten (List.filter_congr fun piece member => ?_)
  rw [areRuns.breaksLine_eq member]

/-! ### Parts of a text -/

/-- White space on its own is gone or is left as it is. -/
theorem stripLayoutChars_blank {chars : List Char} (blank : ∀ char ∈ chars, isBlank char = true) :
    stripLayoutChars chars = if '\n' ∈ chars then [] else chars := by
  split
  · next breaks => exact stripLayoutChars_of_blank breaks blank
  · next oneLine => exact stripLayoutChars_of_notMem oneLine

theorem stripLayoutChars_nil : stripLayoutChars [] = [] := rfl

/-- A text may be taken apart between two runs. -/
theorem stripLayoutChars_append_of_ne {left right : List Char}
    (apart : ∀ last ∈ left.getLast?, ∀ first ∈ right.head?, ¬ SameKind last first) :
    stripLayoutChars (left ++ right) = stripLayoutChars left ++ stripLayoutChars right := by
  have pieces : runs (left ++ right) = runs left ++ runs right :=
    List.splitBy_append fun last ends first starts =>
      beq_eq_false_iff_ne.mpr (apart last ends first starts)
  rw [stripLayoutChars, pieces, List.filter_append, List.flatten_append]
  rfl

theorem eq_false_of_mem_getLast?_rdropWhile {test : Char → Bool} {chars : List Char} {last : Char}
    (ends : last ∈ (chars.rdropWhile test).getLast?) : test last = false := by
  rw [List.rdropWhile, List.getLast?_reverse] at ends
  exact eq_false_of_mem_head?_dropWhile ends

/-- Whether a character is no white space. -/
def isSolid (char : Char) : Bool := !isBlank char

theorem not_sameKind {blank solid : Char} (white : isSolid blank = false)
    (other : isSolid solid = true) : ¬ SameKind blank solid := by
  intro same
  have alike : isSolid blank = isSolid solid := congrArg not same
  rw [white, other] at alike
  exact Bool.noConfusion alike

/-- A word, which has no white space in it, is left as it is. -/
theorem stripLayoutChars_of_solid {word : List Char} (solid : ∀ char ∈ word, isSolid char = true) :
    stripLayoutChars word = word :=
  stripLayoutChars_of_notMem fun breaks => absurd (solid '\n' breaks) (by decide)

/-- A word at the start of a text is left as it is. -/
theorem stripLayoutChars_word_append {word : List Char}
    (solid : ∀ char ∈ word, isSolid char = true) (rest : List Char) :
    stripLayoutChars (word ++ rest) = word ++ stripLayoutChars rest := by
  -- The rest may go on with the same word, which ends where white space starts.
  have ended {whole : List Char} (solid : ∀ char ∈ whole, isSolid char = true) :
      stripLayoutChars (whole ++ rest.dropWhile isSolid) =
        whole ++ stripLayoutChars (rest.dropWhile isSolid) := by
    rw [stripLayoutChars_append_of_ne, stripLayoutChars_of_solid solid]
    intro last ending first starting same
    exact not_sameKind (eq_false_of_mem_head?_dropWhile starting)
      (solid last (List.mem_of_mem_getLast? ending)) same.symm
  have next : ∀ char ∈ rest.takeWhile isSolid, isSolid char = true :=
    fun _ => List.mem_takeWhile_imp
  calc stripLayoutChars (word ++ rest)
    _ = stripLayoutChars ((word ++ rest.takeWhile isSolid) ++ rest.dropWhile isSolid) := by
      rw [List.append_assoc, List.takeWhile_append_dropWhile]
    _ = word ++ (rest.takeWhile isSolid ++ stripLayoutChars (rest.dropWhile isSolid)) := by
      rw [ended (List.forall_mem_append.mpr ⟨solid, next⟩), List.append_assoc]
    _ = word ++ stripLayoutChars rest := by
      rw [← ended next, List.takeWhile_append_dropWhile]

/-- A character that is no white space parts a text. -/
theorem stripLayoutChars_append_cons (left : List Char) {char : Char} (right : List Char)
    (solid : isSolid char = true) :
    stripLayoutChars (left ++ char :: right) =
      stripLayoutChars left ++ char :: stripLayoutChars right := by
  -- The part in front may end in a word, with which the character goes on.
  let before := left.rdropWhile isSolid
  let word := left.rtakeWhile isSolid
  have parts : before ++ word = left := List.rdropWhile_append_rtakeWhile
  have solidWord : ∀ other ∈ word, isSolid other = true := fun _ => List.mem_rtakeWhile_imp
  have apart {rest : List Char} (starts : ∀ first ∈ rest.head?, isSolid first = true) :
      stripLayoutChars (before ++ rest) = stripLayoutChars before ++ stripLayoutChars rest :=
    stripLayoutChars_append_of_ne fun last ending first starting =>
      not_sameKind (eq_false_of_mem_getLast?_rdropWhile ending) (starts first starting)
  have solidNext : ∀ other ∈ word ++ [char], isSolid other = true :=
    List.forall_mem_append.mpr ⟨solidWord, List.forall_mem_singleton.mpr solid⟩
  have starts : ∀ first ∈ ((word ++ [char]) ++ right).head?, isSolid first = true := by
    intro first starting
    rw [List.head?_append_of_ne_nil _ (List.concat_ne_nil char word)] at starting
    exact solidNext first (List.mem_of_mem_head? starting)
  have front : stripLayoutChars left = stripLayoutChars before ++ word := by
    have whole := apart fun first starting => solidWord first (List.mem_of_mem_head? starting)
    rwa [parts, stripLayoutChars_of_solid solidWord] at whole
  calc stripLayoutChars (left ++ char :: right)
    _ = stripLayoutChars (before ++ ((word ++ [char]) ++ right)) := by
      rw [List.append_assoc word, List.singleton_append, ← List.append_assoc, parts]
    _ = stripLayoutChars before ++ ((word ++ [char]) ++ stripLayoutChars right) := by
      rw [apart starts, stripLayoutChars_word_append solidNext]
    _ = stripLayoutChars left ++ char :: stripLayoutChars right := by
      rw [front, List.append_assoc word, List.singleton_append, ← List.append_assoc]

/-- A text may be taken apart wherever it does not cut through white space. -/
theorem stripLayoutChars_append {left right : List Char}
    (seam : (∀ last ∈ left.getLast?, isSolid last = true) ∨
      ∀ first ∈ right.head?, isSolid first = true) :
    stripLayoutChars (left ++ right) = stripLayoutChars left ++ stripLayoutChars right := by
  rcases seam with ends | starts
  · rcases List.eq_nil_or_concat' left with rfl | ⟨before, last, rfl⟩
    · rfl
    · have solid := ends last List.getLast?_concat
      rw [List.append_assoc, List.singleton_append, stripLayoutChars_append_cons _ _ solid,
        stripLayoutChars_append_cons _ _ solid, List.append_assoc]
      rfl
  · cases right with
    | nil => rw [List.append_nil, stripLayoutChars_nil, List.append_nil]
    | cons first rest =>
      have solid := starts first rfl
      rw [stripLayoutChars_append_cons _ _ solid]
      exact congrArg _ (stripLayoutChars_append_cons [] rest solid).symm

/-! ### One pass over a text -/

/-- Where a pass over a text is: what it has kept, the white space that it has read since, and
whether that breaks a line. -/
structure LayoutPass where
  kept : List Char := []
  held : List Char := []
  broken : Bool := false

namespace LayoutPass

/-- What is kept when no more white space follows. -/
def settled (pass : LayoutPass) : List Char :=
  if pass.broken then pass.kept else pass.kept ++ pass.held

/-- Reads a character: white space is held back, and any other character settles what was held. -/
def read (pass : LayoutPass) (char : Char) : LayoutPass :=
  if isBlank char then
    { pass with held := pass.held ++ [char], broken := pass.broken || char == '\n' }
  else { kept := pass.settled ++ [char] }

/-- The pass through a text, from left to right. -/
def through (chars : List Char) : LayoutPass :=
  chars.foldl read {}

/-- Where a pass is after it has read a text: it holds the white space in which the text ends, knows
whether that breaks a line, and has kept what is left of the text in front of it. -/
structure After (pass : LayoutPass) (chars : List Char) : Prop where
  blank : ∀ char ∈ pass.held, isBlank char = true
  broken : pass.broken = pass.held.contains '\n'
  front : ∃ before, chars = before ++ pass.held ∧ pass.kept = stripLayoutChars before ∧
    ∀ last ∈ before.getLast?, isSolid last = true

variable {pass : LayoutPass} {chars : List Char}

/-- After a text has been read, what a pass would settle for is the stripped text. -/
theorem After.settled_eq (after : pass.After chars) : pass.settled = stripLayoutChars chars := by
  obtain ⟨before, rfl, kept, ends⟩ := after.front
  rw [stripLayoutChars_append (Or.inl ends), stripLayoutChars_blank after.blank, settled,
    after.broken, kept]
  by_cases breaks : '\n' ∈ pass.held
  · rw [if_pos (List.contains_iff_mem.mpr breaks), if_pos breaks, List.append_nil]
  · rw [if_neg (mt List.contains_iff_mem.mp breaks), if_neg breaks]

/-- Reading one more character leaves a pass where it has to be. -/
theorem After.read (after : pass.After chars) (char : Char) :
    (pass.read char).After (chars ++ [char]) := by
  have settled := after.settled_eq
  unfold LayoutPass.read
  cases white : isBlank char with
  | true =>
    obtain ⟨before, rfl, kept, ends⟩ := after.front
    refine ⟨?_, ?_, before, List.append_assoc _ _ _, kept, ends⟩
    · exact List.forall_mem_append.mpr ⟨after.blank, List.forall_mem_singleton.mpr white⟩
    · show (pass.broken || char == '\n') = (pass.held ++ [char]).contains '\n'
      rw [after.broken, List.contains_append, List.contains_cons, List.contains_nil, Bool.or_false,
        Bool.beq_comm]
  | false =>
    have solid : isSolid char = true := (Bool.not_eq_true' _).mpr white
    refine ⟨List.forall_mem_nil _, rfl, chars ++ [char], (List.append_nil _).symm, ?_, ?_⟩
    · show pass.settled ++ [char] = _
      rw [settled, stripLayoutChars_append_cons chars [] solid, stripLayoutChars_nil]
    · intro last ending
      rw [List.getLast?_concat] at ending
      exact Option.some.inj ending ▸ solid

/-- Wherever a pass stops, it is where it has to be. -/
theorem after_through (chars : List Char) : (through chars).After chars := by
  induction chars using List.reverseRecOn with
  | nil => exact ⟨nofun, rfl, [], rfl, rfl, nofun⟩
  | append_singleton before last inductionHypothesis =>
    rw [through, List.foldl_concat]
    exact inductionHypothesis.read last

end LayoutPass

/-! ### What is left of a text -/

/-- Nothing is left of a text when nothing was in it, or nothing but layout. -/
theorem stripLayoutChars_eq_nil_iff {chars : List Char} :
    stripLayoutChars chars = [] ↔
      chars = [] ∨ '\n' ∈ chars ∧ ∀ char ∈ chars, isBlank char = true := by
  constructor
  · intro gone
    have blank : ∀ char ∈ chars, isBlank char = true := by
      intro char member
      by_contra white
      obtain ⟨before, after, rfl⟩ := List.append_of_mem member
      have solid : isSolid char = true := (Bool.not_eq_true' _).mpr (Bool.eq_false_iff.mpr white)
      rw [stripLayoutChars_append_cons before after solid] at gone
      exact List.append_ne_nil_of_right_ne_nil _ (List.cons_ne_nil _ _) gone
    rw [stripLayoutChars_blank blank] at gone
    split at gone
    · next breaks => exact Or.inr ⟨breaks, blank⟩
    · exact Or.inl gone
  · rintro (rfl | ⟨breaks, blank⟩)
    · exact stripLayoutChars_nil
    · exact stripLayoutChars_of_blank breaks blank

/-- A text falls into maximal runs in one way, and what is left of it are the runs that are not
white space with a line break, in their order; a single pass finds the same. So nothing that is left
breaks a line, and what breaks no line is left as it is, which makes stripping a text twice the same
as stripping it once. Nothing at all is left of an empty text and of a text that is white space with
a line break, and of these only. -/
theorem stripLayout_deletes_broken_runs (text : String) :
    (∃! pieces, AreRuns pieces text.toList) ∧
    (∀ pieces, AreRuns pieces text.toList →
      (stripLayout text).toList = (pieces.filter fun run => !breaksLine run).flatten) ∧
    (LayoutPass.through text.toList).settled = (stripLayout text).toList ∧
    '\n' ∉ (stripLayout text).toList ∧
    (stripLayout text = text ↔ '\n' ∉ text.toList) ∧
    stripLayout (stripLayout text) = stripLayout text ∧
    (stripLayout text = "" ↔ text = "" ∨ IsLayout text) := by
  have chars : (stripLayout text).toList = stripLayoutChars text.toList := String.toList_ofList
  refine ⟨⟨runs text.toList, areRuns_runs _, fun _ areRuns => areRuns.eq_runs⟩,
    fun pieces areRuns => ?_, ?_, newline_notMem_stripLayout text, ?_, stripLayout_stripLayout text,
    ?_⟩
  · rw [chars, areRuns.stripLayoutChars_eq]
  · rw [chars, (LayoutPass.after_through text.toList).settled_eq]
  · exact ⟨fun fixed => fixed ▸ newline_notMem_stripLayout text, stripLayout_of_notMem⟩
  · rw [← String.toList_eq_nil_iff, chars, stripLayoutChars_eq_nil_iff, String.toList_eq_nil_iff,
      IsLayout]

/-- White space of several scripts joins a line break, and a run of it without one stays. -/
theorem stripLayout_deletes_broken_runs_spaces :
    let pieces := [['\n', ' '], ['a'], ['\u00a0', '\u2028', '\n', '\u3000'], ['b', '.'],
      ['\u00a0', '\r'], ['c'], [' ', '\n']]
    AreRuns pieces (String.ofList pieces.flatten).toList ∧
      (stripLayout (String.ofList pieces.flatten)).toList =
        ['a', 'b', '.', '\u00a0', '\r', 'c'] := by
  intro pieces
  have areRuns : AreRuns pieces (String.ofList pieces.flatten).toList :=
    ⟨String.toList_ofList.symm, by decide, by decide, by decide⟩
  exact ⟨areRuns, (stripLayout_deletes_broken_runs _).2.1 pieces areRuns⟩

end MarkupBlocks.Text
