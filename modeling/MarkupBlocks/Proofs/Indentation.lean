/-
The indentation of a document stands in front of its lines.

What a run does is told by its journal, which knows no indentation, so only the text of a run that
succeeds depends on it. That text is put together from single lines, and each of its line feeds is
one that the written form adds, after an opening brace or at the end of an assignment. An
indentation comes next in both places, and it starts with the one of the document. So to indent a
document is to put the indentation after every line feed, whatever the indentation is.
-/

import Mathlib.Data.List.Basic
import MarkupBlocks.Proofs.Journal
import MarkupBlocks.Proofs.SingleLines

namespace MarkupBlocks

namespace Text

/-- A character, with a text put after it when it is a line feed. -/
def shiftChar (indentation : String) (char : Char) : List Char :=
  if char = '\n' then '\n' :: indentation.toList else [char]

/-- A text with another one put after every line feed. -/
def shiftLines (indentation text : String) : String :=
  String.ofList (text.toList.flatMap (shiftChar indentation))

/-- A single line is left as it is. -/
theorem flatMap_shiftChar_of_notMem (indentation : String) {chars : List Char}
    (oneLine : '\n' ∉ chars) : chars.flatMap (shiftChar indentation) = chars := by
  induction chars with
  | nil => rfl
  | cons char rest inductionHypothesis =>
    rw [List.mem_cons, not_or] at oneLine
    rw [List.flatMap_cons, shiftChar, if_neg (Ne.symm oneLine.1), inductionHypothesis oneLine.2]
    rfl

end Text

/-! ### Written outlines -/

/-- To shift assignments is to indent them more, up to where their indentation stands: it is put
after the line feed of an assignment, and is in front of the next one. -/
theorem append_shift_assignmentChars {assignments : List (String × Outline)} {outer inner : String}
    (names : ∀ pair ∈ assignments, '\n' ∉ pair.1.toList) (line : '\n' ∉ inner.toList)
    (values : ∀ pair ∈ assignments,
      pair.2.chars (outer ++ inner) = (pair.2.chars inner).flatMap (Text.shiftChar outer)) :
    outer.toList ++ (assignmentChars inner assignments).flatMap (Text.shiftChar outer) =
      assignmentChars (outer ++ inner) assignments ++ outer.toList := by
  induction assignments with
  | nil =>
    rw [assignmentChars_nil, assignmentChars_nil]
    exact List.append_nil _
  | cons head rest inductionHypothesis =>
    obtain ⟨name, outline⟩ := head
    have others := inductionHypothesis
      (fun pair member => names pair (List.mem_cons_of_mem _ member))
      fun pair member => values pair (List.mem_cons_of_mem _ member)
    have equals : [' ', '=', ' '].flatMap (Text.shiftChar outer) = [' ', '=', ' '] := rfl
    have lineFeed : ['\n'].flatMap (Text.shiftChar outer) = '\n' :: outer.toList :=
      List.append_nil _
    rw [assignmentChars_cons, assignmentChars_cons, values _ List.mem_cons_self]
    simp only [List.flatMap_append, equals, lineFeed, String.toList_append,
      Text.flatMap_shiftChar_of_notMem outer line,
      Text.flatMap_shiftChar_of_notMem outer (names _ List.mem_cons_self)]
    simp only [List.append_assoc, List.cons_append, List.nil_append, others]

/-- To shift a written outline is to indent it more. -/
theorem Outline.shift_chars {outline : Outline} (obeys : outline.Obeys (lineOutline '\n'))
    (outer : String) {inner : String} (line : '\n' ∉ inner.toList) :
    outline.chars (outer ++ inner) = (outline.chars inner).flatMap (Text.shiftChar outer) := by
  induction outline using Outline.induction generalizing inner with
  | leaf content =>
    cases obeys with
    | leaf oneLine =>
      rw [Outline.chars_leaf, Outline.chars_leaf, Text.flatMap_shiftChar_of_notMem outer oneLine]
  | block prototype assignments inductionHypothesis =>
    cases obeys with
    | block head names values =>
      have deeper : '\n' ∉ (inner ++ indentStep).toList := by
        rw [String.toList_append]
        exact List.not_mem_append line (by decide)
      have inside := append_shift_assignmentChars names deeper fun pair member =>
        inductionHypothesis pair member (values pair member) deeper
      have opening : [' ', '\x7b', '\n'].flatMap (Text.shiftChar outer) =
          ' ' :: '\x7b' :: '\n' :: outer.toList := by
        show ' ' :: '\x7b' :: '\n' :: (outer.toList ++ []) = _
        rw [List.append_nil]
      have closing : ['\x7d'].flatMap (Text.shiftChar outer) = ['\x7d'] := rfl
      have body := congrArg (· ++ (inner.toList ++ ['\x7d'])) inside
      simp only [List.append_assoc] at body
      rw [Outline.chars_block, Outline.chars_block, String.append_assoc]
      simp only [List.flatMap_append, opening, closing, String.toList_append,
        Text.flatMap_shiftChar_of_notMem outer head, Text.flatMap_shiftChar_of_notMem outer line]
      simp only [List.append_assoc, List.cons_append, List.nil_append, body]

/-- An outline of single lines that is written at an indentation is the one that is written at
none, shifted. -/
theorem Outline.print_eq_shiftLines {outline : Outline} (obeys : outline.Obeys (lineOutline '\n'))
    (indentation : String) :
    outline.value.print indentation = Text.shiftLines indentation (outline.value.print "") := by
  have shifted := outline.shift_chars obeys indentation (by decide : '\n' ∉ "".toList)
  rw [String.append_empty] at shifted
  calc outline.value.print indentation
    _ = String.ofList (outline.chars indentation) := String.ofList_toList.symm
    _ = Text.shiftLines indentation (outline.value.print "") := congrArg String.ofList shifted

/-! ### Runs -/

/-- What a run reports and whether it fails, and in which fault, is the same at every
indentation. -/
structure IndentationFree (run : String → Run String) : Prop where
  events : ∀ left right, (run left).events = (run right).events
  fails : ∀ left right fault, (run left).result = .error fault → (run right).result = .error fault

/-- The text of a run at an indentation is its text at none, with the indentation put after every
line feed. -/
def ShiftsLines (run : String → Run String) : Prop :=
  ∀ indentation, (run indentation).result =
    (run "").result.map (Text.shiftLines indentation)

section Follow

variable (limit : Option Nat) (steps : List Step)

/-- A run that follows one journal to a text at every indentation is free of it. -/
theorem indentationFree_follow (text : String → String) :
    IndentationFree fun indentation => follow limit steps (text indentation) where
  events left right := by
    rw [follow_eq_map limit steps (text left), follow_eq_map limit steps (text right)]
  fails left right fault failed := by
    rw [follow_eq_map] at failed ⊢
    cases ends : (follow limit steps ()).result with
    | ok done => rw [ends] at failed; exact absurd failed nofun
    | error other => rw [ends] at failed; exact failed

/-- A run that follows one journal to an outline of single lines shifts the lines. -/
theorem shiftsLines_follow {outline : Outline} (obeys : outline.Obeys (lineOutline '\n')) :
    ShiftsLines fun indentation => follow limit steps (outline.value.print indentation) := by
  intro indentation
  show (follow limit steps _).result = (follow limit steps _).result.map _
  rw [follow_eq_map limit steps (outline.value.print indentation),
    follow_eq_map limit steps (outline.value.print ""), outline.print_eq_shiftLines obeys]
  cases (follow limit steps ()).result <;> rfl

end Follow

/-- The indentation of a document decides neither whether it renders, nor the fault that it ends
in, nor what is reported. If its strings are single lines, apart from the texts among siblings,
then whatever the indentation is, it stands after every line feed of what is written without one.
The same is true of an element and the indentation that it is rendered at. -/
theorem render_indentation (limit : Option Nat) :
    (∀ nodes,
      IndentationFree (fun indentation => Settings.render ⟨indentation, limit⟩ nodes) ∧
        (DocumentObeys oneLine nodes →
          ShiftsLines fun indentation => Settings.render ⟨indentation, limit⟩ nodes)) ∧
    ∀ (base : String) (element : Element),
      IndentationFree (Settings.renderElement ⟨base, limit⟩ element) ∧
        ((Node.element element).Obeys oneLine .sibling →
          ShiftsLines (Settings.renderElement ⟨base, limit⟩ element)) := by
  refine ⟨fun nodes => ?_, fun base element => ?_⟩
  · simp only [render_eq_follow]
    exact ⟨indentationFree_follow limit _ _, fun obeys =>
      shiftsLines_follow limit _ (documentOutline_obeys oneLine_carries obeys)⟩
  · have run : Settings.renderElement ⟨base, limit⟩ element = fun indentation =>
        follow limit (element.journal 0) ((Node.element element).outline.value.print indentation) :=
      funext (renderElement_eq_follow ⟨base, limit⟩ element)
    rw [run]
    exact ⟨indentationFree_follow limit _ _, fun obeys =>
      shiftsLines_follow limit _ (Node.outline_obeys oneLine_carries obeys nofun)⟩

/-- A text among siblings spans two lines, and so does the indentation of the document. -/
theorem render_indentation_two_lines :
    let inner : Element := ⟨"V:B", [("b", .leaf (.text "x"))], [], false⟩
    let nodes := [Node.element ⟨"V:A", [("a", .element inner)], [.leaf (.text "y\n z")], false⟩]
    let written := "V:A \x7b\n    a = V:B \x7b\n        b = 'x'\n    \x7d\n    content = 'yz'\n\x7d"
    DocumentObeys oneLine nodes ∧ (Node.element inner).Obeys oneLine .sibling ∧
      (Settings.render ⟨"", none⟩ nodes).result = .ok written ∧
      (Settings.render ⟨"\n>", none⟩ nodes).result = .ok (Text.shiftLines "\n>" written) ∧
      (Settings.renderElement ⟨"", none⟩ inner "> ").result =
        .ok "V:B \x7b\n>     b = 'x'\n> \x7d" := by
  intro inner nodes written
  have obeys : DocumentObeys oneLine nodes := by decide +kernel
  have obeysInner : (Node.element inner).Obeys oneLine .sibling := by decide +kernel
  have plain : (Settings.render ⟨"", none⟩ nodes).result = .ok written := by decide +kernel
  have plainInner : (Settings.renderElement ⟨"", none⟩ inner "").result =
      .ok "V:B \x7b\n    b = 'x'\n\x7d" := by decide +kernel
  have moved : Text.shiftLines "> " "V:B \x7b\n    b = 'x'\n\x7d" =
      "V:B \x7b\n>     b = 'x'\n> \x7d" := by decide +kernel
  have shifted := ((render_indentation none).1 nodes).2 obeys "\n>"
  have shiftedInner := ((render_indentation none).2 "" inner).2 obeysInner "> "
  rw [plain] at shifted
  rw [plainInner] at shiftedInner
  exact ⟨obeys, obeysInner, plain, shifted, shiftedInner.trans (congrArg Except.ok moved)⟩

end MarkupBlocks
