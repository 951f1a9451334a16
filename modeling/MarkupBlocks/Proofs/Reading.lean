/-
A written value can be read back.

A reader needs to know nothing but the indentation. The line on which a value starts tells a
scalar from a block, because the line of a block ends in an opening brace and no scalar does.
What follows the indentation on a later line tells an assignment from the end of the block,
because an assignment is one step deeper and a step is no brace. A name ends at the first
space. So the text of a document decides its assignment tree, provided that no line feed
stands within a line and no space within a name.
-/

import Mathlib.Data.List.Basic
import MarkupBlocks.Proofs.Printing
import MarkupBlocks.Proofs.Journal
import MarkupBlocks.Proofs.SingleLines

namespace MarkupBlocks

/-! ### The reader -/

/-- The prototype of the block that a line opens. -/
def opened? (line : List Char) : Option (List Char) :=
  (line.reverse.dropPrefix? ['\x7b', ' ']).map List.reverse

mutual

/-- Reads a value that starts on a line with the indentation given, together with the line feed
after it, and hands on what follows. Every call reads on in a shorter text, so a bound above
the length of the text is never met. -/
def readValue (bound : Nat) (indentation : String) (text : List Char) :
    Option (Value × List Char) :=
  match bound with
  | 0 => none
  | bound + 1 =>
    let line := text.takeWhile (· != '\n')
    let later := (text.dropWhile (· != '\n')).drop 1
    match opened? line with
    | none => some (.scalar (String.ofList line), later)
    | some prototype => do
      let (assignments, later) ← readAssignments bound indentation later
      return (.block (String.ofList prototype) assignments, later)

/-- Reads the assignments of a block and its closing line. -/
def readAssignments (bound : Nat) (indentation : String) (text : List Char) :
    Option (List (String × Value) × List Char) :=
  match bound with
  | 0 => none
  | bound + 1 =>
    match text.dropPrefix? (indentation.toList ++ ['\x7d', '\n']) with
    | some later => some ([], later)
    | none => do
      let line ← text.dropPrefix? (indentation ++ indentStep).toList
      let name := line.takeWhile (· != ' ')
      let written ← (line.dropWhile (· != ' ')).dropPrefix? [' ', '=', ' ']
      let (value, later) ← readValue bound (indentation ++ indentStep) written
      let (others, later) ← readAssignments bound indentation later
      return ((String.ofList name, value) :: others, later)

end

/-- Reads a text that is a value and nothing else. -/
def readText (indentation : String) (text : String) : Option Value :=
  match readValue (text.length + 2) indentation (text.toList ++ ['\n']) with
  | some (value, []) => some value
  | _ => none

/-! ### Words of the reader -/

theorem forall_ne_of_notMem {stop : Char} {start : List Char} (free : stop ∉ start) :
    ∀ char ∈ start, (char != stop) = true := by
  intro char member
  refine bne_iff_ne.mpr fun same => free ?_
  rwa [← same]

theorem takeWhile_ne {stop : Char} {start : List Char} (free : stop ∉ start)
    (rest : List Char) : (start ++ stop :: rest).takeWhile (· != stop) = start := by
  rw [List.takeWhile_append_of_pos (forall_ne_of_notMem free),
    List.takeWhile_cons_of_neg (by simp), List.append_nil]

theorem dropWhile_ne {stop : Char} {start : List Char} (free : stop ∉ start)
    (rest : List Char) : (start ++ stop :: rest).dropWhile (· != stop) = stop :: rest := by
  rw [List.dropWhile_append_of_pos (forall_ne_of_notMem free),
    List.dropWhile_cons_of_neg (by simp)]

theorem dropPrefix?_append_append (start text expected : List Char) :
    (start ++ text).dropPrefix? (start ++ expected) = text.dropPrefix? expected := by
  induction start with
  | nil => rfl
  | cons char rest inductionHypothesis =>
    rw [List.cons_append, List.cons_append, List.dropPrefix?, if_pos BEq.rfl,
      inductionHypothesis]

theorem opened?_of_block (prototype : List Char) :
    opened? (prototype ++ [' ', '\x7b']) = some prototype := by
  rw [opened?, List.reverse_append]
  show ((['\x7b', ' '] ++ prototype.reverse).dropPrefix? ['\x7b', ' ']).map List.reverse = _
  rw [List.dropPrefix?_append_of_beq _ BEq.rfl, Option.map_some, List.reverse_reverse]

theorem opened?_of_ne (start : List Char) {last : Char} (ends : last ≠ '\x7b') :
    opened? (start ++ [last]) = none := by
  rw [opened?, List.reverse_append, List.reverse_singleton, List.singleton_append,
    List.dropPrefix?, if_neg fun same => ends (beq_iff_eq.mp same), Option.map_none]

/-- No leaf looks like the first line of a block. -/
theorem opened?_leaf (content : Leaf) : opened? content.print.toList = none := by
  cases content with
  | expression code =>
    rw [toList_print_expression]
    exact opened?_of_ne ('$' :: '\x7b' :: code.toList) (by decide)
  | literal value =>
    rw [toList_print_literal]
    exact opened?_of_ne ('\'' :: value.toList.flatMap Text.escapeAttribute) (by decide)
  | text value =>
    rw [toList_print_text]
    exact opened?_of_ne ('\'' :: value.toList.flatMap Text.escapeRaw) (by decide)
  | boolean value =>
    rw [toList_print_boolean]
    exact opened?_of_ne ['t', 'r', 'u'] (by decide)

/-! ### What is written is read back -/

/-- What the reader relies on. -/
def readableOutline : OutlineRule where
  prototype text := '\n' ∉ text.toList
  name text := ' ' ∉ text.toList
  leaf content := '\n' ∉ content.print.toList

theorem readValue_leaf {content : Leaf} (oneLine : '\n' ∉ content.print.toList) (bound : Nat)
    (indentation : String) (later : List Char) :
    readValue (bound + 1) indentation
        ((Outline.leaf content).chars indentation ++ '\n' :: later) =
      some ((Outline.leaf content).value, later) := by
  rw [readValue, Outline.chars_leaf, Outline.value]
  simp only [takeWhile_ne oneLine, dropWhile_ne oneLine, opened?_leaf, List.drop_one,
    List.tail_cons, String.ofList_toList]

theorem readValue_block {prototype : String} {assignments : List (String × Outline)}
    (oneLine : '\n' ∉ prototype.toList) {bound : Nat} {indentation : String} {later : List Char}
    (inside : readAssignments bound indentation
        (assignmentChars (indentation ++ indentStep) assignments ++
          (indentation.toList ++ '\x7d' :: '\n' :: later)) =
      some (outlinedValues assignments, later)) :
    readValue (bound + 1) indentation
        ((Outline.block prototype assignments).chars indentation ++ '\n' :: later) =
      some ((Outline.block prototype assignments).value, later) := by
  have line : '\n' ∉ prototype.toList ++ [' ', '\x7b'] := by
    simp [oneLine]
  have split : (Outline.block prototype assignments).chars indentation ++ '\n' :: later =
      (prototype.toList ++ [' ', '\x7b']) ++ '\n' ::
        (assignmentChars (indentation ++ indentStep) assignments ++
          (indentation.toList ++ '\x7d' :: '\n' :: later)) := by
    rw [Outline.chars_block]
    simp only [List.append_assoc, List.cons_append, List.nil_append]
  rw [readValue, Outline.value, split]
  simp only [takeWhile_ne line, dropWhile_ne line, opened?_of_block, List.drop_one,
    List.tail_cons, inside, Option.bind_eq_bind, Option.bind_some, String.ofList_toList]
  rfl

theorem readAssignments_nil (bound : Nat) (indentation : String) (later : List Char) :
    readAssignments (bound + 1) indentation
        (assignmentChars (indentation ++ indentStep) [] ++
          (indentation.toList ++ '\x7d' :: '\n' :: later)) =
      some (outlinedValues [], later) := by
  have closing : (indentation.toList ++ ['\x7d', '\n'] ++ later).dropPrefix?
      (indentation.toList ++ ['\x7d', '\n']) = some later :=
    List.dropPrefix?_append_of_beq later BEq.rfl
  rw [List.append_assoc] at closing
  rw [readAssignments, assignmentChars_nil, List.nil_append]
  simp only [List.cons_append, List.nil_append] at closing
  rw [closing, outlinedValues]

/-- An assignment is one step deeper than the end of its block. -/
theorem dropPrefix?_of_deeper (indentation : String) (line : List Char) :
    ((indentation ++ indentStep).toList ++ line).dropPrefix?
      (indentation.toList ++ ['\x7d', '\n']) = none := by
  rw [String.toList_append, List.append_assoc, dropPrefix?_append_append]
  rfl

theorem readAssignments_cons {name : String} {outline : Outline}
    {rest : List (String × Outline)} (oneWord : ' ' ∉ name.toList) {bound : Nat}
    {indentation : String} {later : List Char}
    (value : readValue bound (indentation ++ indentStep)
        (outline.chars (indentation ++ indentStep) ++ '\n' ::
          (assignmentChars (indentation ++ indentStep) rest ++ later)) =
      some (outline.value, assignmentChars (indentation ++ indentStep) rest ++ later))
    {final : List Char}
    (others : readAssignments bound indentation
        (assignmentChars (indentation ++ indentStep) rest ++ later) =
      some (outlinedValues rest, final)) :
    readAssignments (bound + 1) indentation
        (assignmentChars (indentation ++ indentStep) ((name, outline) :: rest) ++ later) =
      some (outlinedValues ((name, outline) :: rest), final) := by
  have split : assignmentChars (indentation ++ indentStep) ((name, outline) :: rest) ++ later =
      (indentation ++ indentStep).toList ++ (name.toList ++ ' ' :: ('=' :: ' ' ::
        (outline.chars (indentation ++ indentStep) ++ '\n' ::
          (assignmentChars (indentation ++ indentStep) rest ++ later)))) := by
    rw [assignmentChars_cons]
    simp only [List.append_assoc, List.cons_append, List.nil_append]
  have equals (written : List Char) :
      (' ' :: '=' :: ' ' :: written).dropPrefix? [' ', '=', ' '] = some written :=
    @List.dropPrefix?_append_of_beq Char _ [' ', '=', ' '] _ written BEq.rfl
  rw [split, readAssignments, dropPrefix?_of_deeper]
  simp only [List.dropPrefix?_append_of_beq _ BEq.rfl, takeWhile_ne oneWord, dropWhile_ne oneWord,
    equals, value, others, Option.bind_eq_bind, Option.bind_some, String.ofList_toList]
  rfl

/-- Assignments are read back when their values are. -/
theorem readAssignments_chars {assignments : List (String × Outline)}
    (names : ∀ pair ∈ assignments, ' ' ∉ pair.1.toList)
    (values : ∀ pair ∈ assignments, ∀ {bound : Nat} (indentation : String) (later : List Char),
      (pair.2.chars indentation).length + later.length + 1 < bound →
        readValue bound indentation (pair.2.chars indentation ++ '\n' :: later) =
          some (pair.2.value, later))
    {bound : Nat} (indentation : String) (later : List Char)
    (enough : (assignmentChars (indentation ++ indentStep) assignments).length +
      indentation.toList.length + later.length + 2 < bound) :
    readAssignments bound indentation
        (assignmentChars (indentation ++ indentStep) assignments ++
          (indentation.toList ++ '\x7d' :: '\n' :: later)) =
      some (outlinedValues assignments, later) := by
  induction assignments generalizing bound with
  | nil =>
    obtain ⟨smaller, rfl⟩ := Nat.exists_eq_succ_of_ne_zero (Nat.ne_of_gt (Nat.zero_lt_of_lt enough))
    exact readAssignments_nil smaller indentation later
  | cons head rest inductionHypothesis =>
    obtain ⟨smaller, rfl⟩ := Nat.exists_eq_succ_of_ne_zero (Nat.ne_of_gt (Nat.zero_lt_of_lt enough))
    obtain ⟨name, outline⟩ := head
    rw [assignmentChars_cons] at enough
    simp only [List.length_append, List.length_cons, List.length_nil] at enough
    refine readAssignments_cons (names _ List.mem_cons_self) ?_ ?_
    · refine values _ List.mem_cons_self _ _ ?_
      simp only [List.length_append, List.length_cons]
      omega
    · refine inductionHypothesis (fun pair member => names pair (List.mem_cons_of_mem _ member))
        (fun pair member => values pair (List.mem_cons_of_mem _ member)) ?_
      omega

/-- An outline is read back from its characters. -/
theorem readValue_chars {outline : Outline} (obeys : outline.Obeys readableOutline) {bound : Nat}
    (indentation : String) (later : List Char)
    (enough : (outline.chars indentation).length + later.length + 1 < bound) :
    readValue bound indentation (outline.chars indentation ++ '\n' :: later) =
      some (outline.value, later) := by
  induction outline using Outline.induction generalizing bound indentation later with
  | leaf content =>
    obtain ⟨smaller, rfl⟩ := Nat.exists_eq_succ_of_ne_zero (Nat.ne_of_gt (Nat.zero_lt_of_lt enough))
    cases obeys with
    | leaf oneLine => exact readValue_leaf oneLine smaller indentation later
  | block prototype assignments inductionHypothesis =>
    obtain ⟨smaller, rfl⟩ := Nat.exists_eq_succ_of_ne_zero (Nat.ne_of_gt (Nat.zero_lt_of_lt enough))
    cases obeys with
    | block oneLine names values =>
      refine readValue_block oneLine (readAssignments_chars names ?_ indentation later ?_)
      · exact fun pair member _ inner rest bounded =>
          inductionHypothesis pair member (values pair member) inner rest bounded
      · rw [Outline.chars_block] at enough
        simp only [List.length_append, List.length_cons, List.length_nil] at enough
        omega

/-- A written outline is read back. -/
theorem readText_print {outline : Outline} (obeys : outline.Obeys readableOutline)
    (indentation : String) :
    readText indentation (outline.value.print indentation) = some outline.value := by
  have enough : (outline.chars indentation).length + ([] : List Char).length + 1 <
      (outline.value.print indentation).length + 2 := by
    rw [Outline.chars, String.length_toList, List.length_nil]
    omega
  rw [readText, show (outline.value.print indentation).toList = outline.chars indentation from rfl,
    readValue_chars obeys indentation [] enough]

/-! ### The text of a document decides its assignment tree -/

/-- No string holds a line feed, except texts among siblings, and none that is written as a name
holds a space. -/
def legible : Role → String → Prop
  | .content, _ => True
  | .name, string | .payload, string => '\n' ∉ string.toList ∧ ' ' ∉ string.toList
  | _, string => '\n' ∉ string.toList

instance (role : Role) (string : String) : Decidable (legible role string) := by
  cases role <;> unfold legible <;> infer_instance

theorem legible_carries : Carries legible readableOutline := by
  refine carries_lineOutline (fun role string other obeys => ?_) (fun string obeys => obeys.2)
    (fun string obeys => obeys.2) (by decide) (by decide)
  cases role with
  | content => exact absurd rfl other
  | name => exact obeys.1
  | payload => exact obeys.1
  | _ => exact obeys

/-- The texts of two legible documents that render at one indentation are equal exactly when
their assignment trees are, because the tree is read back from the text. -/
theorem render_eq_iff_assignmentTree_eq {indentation : String} {leftLimit rightLimit : Option Nat}
    {left right : List Node} {leftText rightText : String}
    (leftLegible : DocumentObeys legible left) (rightLegible : DocumentObeys legible right)
    (leftRenders : (Settings.render ⟨indentation, leftLimit⟩ left).result = .ok leftText)
    (rightRenders : (Settings.render ⟨indentation, rightLimit⟩ right).result = .ok rightText) :
    (leftText = rightText ↔ assignmentTree left = assignmentTree right) ∧
      readText indentation leftText = some (assignmentTree left) ∧
      readText indentation rightText = some (assignmentTree right) := by
  have leftRead : readText indentation leftText = some (assignmentTree left) := by
    rw [eq_print_of_render_ok leftRenders]
    exact readText_print (documentOutline_obeys legible_carries leftLegible) indentation
  have rightRead : readText indentation rightText = some (assignmentTree right) := by
    rw [eq_print_of_render_ok rightRenders]
    exact readText_print (documentOutline_obeys legible_carries rightLegible) indentation
  refine ⟨⟨fun same => ?_, fun same => ?_⟩, leftRead, rightRead⟩
  · rw [same, rightRead] at leftRead
    exact (Option.some.inj leftRead).symm
  · rw [eq_print_of_render_ok leftRenders, eq_print_of_render_ok rightRenders, same]

/-- A plain tag and the object that it stands for: two documents with one text and one tree. -/
theorem render_eq_iff_assignmentTree_eq_tag :
    let content := [Node.leaf (.text "\n x = \x7b\n")]
    let left := [Node.element ⟨"a", [], content, false⟩]
    let right := [Node.element ⟨tagPrototype, [("tagName", .leaf (.literal "a"))], content, false⟩]
    let text := "Neos.Fusion:Tag \x7b\n     tagName = 'a'\n     content = 'x = \x7b'\n \x7d"
    DocumentObeys legible left ∧ DocumentObeys legible right ∧
      (Settings.render ⟨" ", none⟩ left).result = .ok text ∧
      (Settings.render ⟨" ", some 1⟩ right).result = .ok text ∧
      assignmentTree left = assignmentTree right ∧
      readText " " text = some (assignmentTree left) := by
  intro content left right text
  have leftLegible : DocumentObeys legible left := by decide +kernel
  have rightLegible : DocumentObeys legible right := by decide +kernel
  have leftRenders : (Settings.render ⟨" ", none⟩ left).result = .ok text := by decide +kernel
  have rightRenders : (Settings.render ⟨" ", some 1⟩ right).result = .ok text := by
    decide +kernel
  obtain ⟨decides, read, -⟩ :=
    render_eq_iff_assignmentTree_eq leftLegible rightLegible leftRenders rightRenders
  exact ⟨leftLegible, rightLegible, leftRenders, rightRenders, decides.mp rfl, read⟩

end MarkupBlocks
