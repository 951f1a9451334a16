/-
The layout of a written document follows its nesting.

A line that ends in an opening brace goes one level in, and a line that is nothing but a closing
brace goes one level out. Every other line is an assignment at the level that the lines before it
lead to. So the level of a line can be counted from the lines before it, whatever the leaves hold:
a leaf never ends in an opening brace, and an assignment is never a lone closing brace, because it
has an equals sign. A value starts on the line of its name, and the lines that follow lead from the
level that this line opens back to the level of the name. Every line that opens a level is the first
line of a block, and there is one block for each element that is visited and for each list of
several siblings.
-/

import MarkupBlocks.Proofs.Blocks
import MarkupBlocks.Proofs.Journal
import MarkupBlocks.Proofs.Lines
import MarkupBlocks.Proofs.SingleLines

namespace MarkupBlocks

/-! ### Kinds of lines -/

namespace Text

/-- A line goes one level in when it ends in an opening brace. -/
def opens (line : List Char) : Bool :=
  line.getLast? == some '\x7b'

/-- What stands before a line at a level. -/
def margin (indentation : String) (level : Nat) : List Char :=
  indentation.toList ++ List.replicate (4 * level) ' '

/-- The line that closes a block at a level: a closing brace and nothing else. -/
def closing (indentation : String) (level : Nat) : List Char :=
  margin indentation level ++ ['\x7d']

/-- The first line of an assignment at a level. -/
def assignment (indentation : String) (level : Nat) (name value : List Char) : List Char :=
  margin indentation level ++ name ++ [' ', '=', ' '] ++ value

/-- A line goes one level out when it is a closing brace at some level. -/
def closes (indentation : String) (line : List Char) : Bool :=
  (List.range line.length).any fun level => line == closing indentation level

theorem closes_iff {indentation : String} {line : List Char} :
    closes indentation line = true ↔ ∃ level, line = closing indentation level := by
  rw [closes, List.any_eq_true]
  constructor
  · rintro ⟨level, -, same⟩
    exact ⟨level, eq_of_beq same⟩
  · rintro ⟨level, rfl⟩
    refine ⟨level, List.mem_range.mpr ?_, beq_self_eq_true _⟩
    simp only [closing, margin, List.length_append, List.length_replicate, List.length_singleton]
    omega

theorem closes_closing (indentation : String) (level : Nat) :
    closes indentation (closing indentation level) = true :=
  closes_iff.mpr ⟨level, rfl⟩

/-- An assignment is not taken for a closing brace: it has an equals sign after the indentation. -/
theorem closes_assignment (indentation : String) (level : Nat) (name value : List Char) :
    closes indentation (assignment indentation level name value) = false := by
  rw [Bool.eq_false_iff]
  intro closed
  obtain ⟨other, same⟩ := closes_iff.mp closed
  simp only [assignment, closing, margin, List.append_assoc, List.append_cancel_left_eq] at same
  have equals : '=' ∈ List.replicate (4 * level) ' ' ++ (name ++ ([' ', '=', ' '] ++ value)) := by
    simp
  rw [same, List.mem_append] at equals
  rcases equals with space | brace
  · exact absurd (List.eq_of_mem_replicate space) (by decide)
  · exact absurd brace (by decide)

theorem opens_append_of_ne_nil (before : List Char) {line : List Char} (some : line ≠ []) :
    opens (before ++ line) = opens line := by
  rw [opens, opens, List.getLast?_append_of_ne_nil before some]

theorem opens_closing (indentation : String) (level : Nat) :
    opens (closing indentation level) = false :=
  opens_append_of_ne_nil _ (List.cons_ne_nil _ _)

theorem margin_succ (indentation : String) (level : Nat) :
    margin indentation (level + 1) = margin indentation level ++ indentStep.toList := by
  rw [margin, margin, Nat.mul_succ, List.replicate_add, List.append_assoc]
  rfl

/-! ### Lines that lead from one level to another -/

/-- Lines lead from a level to a level. Each is a closing brace that ends the level, or an
assignment at the level that goes one level in when it ends in an opening brace. -/
inductive Nested (indentation : String) : Nat → List (List Char) → Nat → Prop
  | nil (level : Nat) : Nested indentation level [] level
  | closing {level : Nat} {later : List (List Char)} {final : Nat}
      (rest : Nested indentation level later final) :
      Nested indentation (level + 1) (closing indentation level :: later) final
  | assignment {level : Nat} (name value : List Char) {later : List (List Char)} {final : Nat}
      (rest : Nested indentation
        (level + 1 + (opens (assignment indentation (level + 1) name value)).toNat) later final) :
      Nested indentation (level + 1)
        (assignment indentation (level + 1) name value :: later) final

namespace Nested

variable {indentation : String} {first final : Nat} {before after : List (List Char)}

theorem append {middle : Nat} (start : Nested indentation first before middle)
    (rest : Nested indentation middle after final) :
    Nested indentation first (before ++ after) final := by
  induction start with
  | nil level => exact rest
  | closing _ inductionHypothesis => exact .closing (inductionHypothesis rest)
  | assignment name value _ inductionHypothesis =>
    exact .assignment name value (inductionHypothesis rest)

/-- Between two lines there is a level. -/
theorem exists_middle (nested : Nested indentation first (before ++ after) final) :
    ∃ middle, Nested indentation first before middle ∧
      Nested indentation middle after final := by
  induction before generalizing first with
  | nil => exact ⟨first, .nil first, nested⟩
  | cons line rest inductionHypothesis =>
    cases nested with
    | closing later =>
      obtain ⟨middle, start, remaining⟩ := inductionHypothesis later
      exact ⟨middle, .closing start, remaining⟩
    | assignment name value later =>
      obtain ⟨middle, start, remaining⟩ := inductionHypothesis later
      exact ⟨middle, .assignment name value start, remaining⟩

/-- The level that lines lead to is the level that they lead from, and one more for each line that
goes in, and one less for each that goes out. -/
theorem level_eq {lines : List (List Char)} (nested : Nested indentation first lines final) :
    first + lines.countP opens = lines.countP (closes indentation) + final := by
  induction nested with
  | nil level => exact Nat.add_comm level 0
  | @closing level later final _ inductionHypothesis =>
    rw [List.countP_cons_of_neg (Bool.eq_false_iff.mp (opens_closing indentation level)),
      List.countP_cons_of_pos (closes_closing indentation level)]
    omega
  | @assignment level name value later final _ inductionHypothesis =>
    rw [List.countP_cons, List.countP_cons_of_neg
      (Bool.eq_false_iff.mp (closes_assignment indentation (level + 1) name value))]
    cases goesIn : opens (Text.assignment indentation (level + 1) name value) with
    | true =>
      rw [goesIn] at inductionHypothesis
      rw [if_pos rfl]
      simp only [Bool.toNat_true] at inductionHypothesis
      omega
    | false =>
      rw [goesIn] at inductionHypothesis
      rw [if_neg Bool.false_ne_true]
      exact inductionHypothesis

/-- A line stands one level in at least. It is the closing brace of that level, or an assignment
at it. -/
theorem level_line {line : List Char}
    (nested : Nested indentation first (before ++ line :: after) final) :
    ∃ level, first + before.countP opens = before.countP (closes indentation) + (level + 1) ∧
      (line = Text.closing indentation level ∨
        ∃ name value, line = Text.assignment indentation (level + 1) name value) := by
  obtain ⟨middle, start, rest⟩ := nested.exists_middle
  cases rest with
  | @closing level _ _ _ => exact ⟨level, start.level_eq, Or.inl rfl⟩
  | @assignment level name value _ _ _ => exact ⟨level, start.level_eq, Or.inr ⟨name, value, rfl⟩⟩

end Nested

end Text

/-! ### The lines of an outline -/

/-- The first line of a written outline. -/
def Outline.head : Outline → List Char
  | .leaf content => content.print.toList
  | .block prototype _ => prototype.toList ++ [' ', '\x7b']

mutual

/-- The lines of a written outline after the first one. -/
def Outline.body (indentation : String) (level : Nat) : Outline → List (List Char)
  | .leaf _ => []
  | .block _ assignments =>
    assignedBody indentation (level + 1) assignments ++ [Text.closing indentation level]

/-- The lines of written assignments. -/
def assignedBody (indentation : String) (level : Nat) :
    List (String × Outline) → List (List Char)
  | [] => []
  | (name, outline) :: rest =>
    Text.assignment indentation level name.toList outline.head ::
      (outline.body indentation level ++ assignedBody indentation level rest)

end

namespace Outline

theorem head_ne_nil (outline : Outline) : outline.head ≠ [] := by
  cases outline with
  | leaf content =>
    cases content with
    | expression code => rw [head, toList_print_expression]; exact List.cons_ne_nil _ _
    | literal value => rw [head, toList_print_literal]; exact List.cons_ne_nil _ _
    | text value => rw [head, toList_print_text]; exact List.cons_ne_nil _ _
    | boolean value => rw [head, toList_print_boolean]; exact List.cons_ne_nil _ _
  | block prototype assignments => exact List.append_ne_nil_of_right_ne_nil _ (List.cons_ne_nil _ _)

/-- A written leaf ends in a brace that closes, in a quote or in a letter. -/
theorem opens_head_leaf (content : Leaf) : Text.opens (Outline.leaf content).head = false := by
  cases content with
  | expression code =>
    rw [head, toList_print_expression]
    exact Text.opens_append_of_ne_nil _ (List.cons_ne_nil _ _)
  | literal value =>
    rw [head, toList_print_literal]
    exact Text.opens_append_of_ne_nil _ (List.cons_ne_nil _ _)
  | text value =>
    rw [head, toList_print_text]
    exact Text.opens_append_of_ne_nil _ (List.cons_ne_nil _ _)
  | boolean value =>
    rw [head, toList_print_boolean]
    rfl

theorem opens_head_block (prototype : String) (assignments : List (String × Outline)) :
    Text.opens (Outline.block prototype assignments).head = true :=
  Text.opens_append_of_ne_nil _ (List.cons_ne_nil _ _)

end Outline

theorem opens_assignment (indentation : String) (level : Nat) (name : List Char)
    (outline : Outline) :
    Text.opens (Text.assignment indentation level name outline.head) = Text.opens outline.head :=
  Text.opens_append_of_ne_nil _ outline.head_ne_nil

namespace Text

theorem newline_notMem_margin {indentation : String} (line : '\n' ∉ indentation.toList)
    (level : Nat) : '\n' ∉ margin indentation level :=
  List.not_mem_append line fun member => absurd (List.eq_of_mem_replicate member) (by decide)

end Text

section Lines

variable {indentation : String} (line : '\n' ∉ indentation.toList)

include line

/-- Written assignments at a level have the lines of their body when the values have. -/
theorem flatMap_assignmentLines {level : Nat} {inner : String}
    (indented : inner.toList = Text.margin indentation level)
    {assignments : List (String × Outline)} (names : ∀ pair ∈ assignments, '\n' ∉ pair.1.toList)
    (values : ∀ pair ∈ assignments,
      Text.lines (pair.2.chars inner) = pair.2.head :: pair.2.body indentation level) :
    assignments.flatMap (assignmentLines inner) = assignedBody indentation level assignments := by
  induction assignments with
  | nil => rfl
  | cons pair rest inductionHypothesis =>
    obtain ⟨name, outline⟩ := pair
    have others := inductionHypothesis
      (fun pair member => names pair (List.mem_cons_of_mem _ member))
      fun pair member => values pair (List.mem_cons_of_mem _ member)
    have start : '\n' ∉ inner.toList ++ name.toList ++ [' ', '=', ' '] := by
      rw [indented]
      exact List.not_mem_append (List.not_mem_append (Text.newline_notMem_margin line level)
        (names _ List.mem_cons_self)) (by decide)
    have first : assignmentLines inner (name, outline) =
        Text.assignment indentation level name.toList outline.head ::
          outline.body indentation level := by
      rw [assignmentLines, Text.lines_append_of_notMem start, values _ List.mem_cons_self, indented]
      rfl
    rw [List.flatMap_cons, first, others, assignedBody]
    rfl

/-- A written outline of single lines has the lines of its head and its body. -/
theorem Outline.lines_chars {outline : Outline} (obeys : outline.Obeys (lineOutline '\n'))
    {level : Nat} {inner : String} (indented : inner.toList = Text.margin indentation level) :
    Text.lines (outline.chars inner) = outline.head :: outline.body indentation level := by
  induction outline using Outline.induction generalizing level inner with
  | leaf content =>
    cases obeys with
    | leaf oneLine => rw [Outline.chars_leaf, Text.lines_of_notMem oneLine, body, head]
  | block prototype assignments inductionHypothesis =>
    cases obeys with
    | block single names values =>
      have deeper : (inner ++ indentStep).toList = Text.margin indentation (level + 1) := by
        rw [String.toList_append, indented, Text.margin_succ]
      have opening : '\n' ∉ prototype.toList ++ [' ', '\x7b'] :=
        List.not_mem_append single (by decide)
      have closing : '\n' ∉ Text.margin indentation level ++ ['\x7d'] :=
        List.not_mem_append (Text.newline_notMem_margin line level) (by decide)
      rw [Outline.lines_block, Text.lines_of_notMem opening, indented,
        Text.lines_of_notMem closing, flatMap_assignmentLines line deeper names
          fun pair member => inductionHypothesis pair member (values pair member) deeper, body]
      rfl

end Lines

/-! ### The level of each line -/

/-- The bodies of assignments lead back to the level of the assignments when those of the values
do. -/
theorem nested_assignedBody {indentation : String} {level : Nat}
    {assignments : List (String × Outline)}
    (values : ∀ pair ∈ assignments, Text.Nested indentation
      (level + 1 + (Text.opens pair.2.head).toNat) (pair.2.body indentation (level + 1))
      (level + 1)) :
    Text.Nested indentation (level + 1) (assignedBody indentation (level + 1) assignments)
      (level + 1) := by
  induction assignments with
  | nil =>
    rw [assignedBody]
    exact .nil (level + 1)
  | cons pair rest inductionHypothesis =>
    obtain ⟨name, outline⟩ := pair
    have value := values _ List.mem_cons_self
    have others := inductionHypothesis fun pair member =>
      values pair (List.mem_cons_of_mem _ member)
    rw [assignedBody]
    refine .assignment _ _ ?_
    rw [opens_assignment]
    exact value.append others

/-- The body of an outline leads from the level that its head opens back to the level at which it
is written. -/
theorem Outline.nested_body (indentation : String) (level : Nat) (outline : Outline) :
    Text.Nested indentation (level + (Text.opens outline.head).toNat)
      (outline.body indentation level) level := by
  induction outline using Outline.induction generalizing level with
  | leaf content =>
    rw [opens_head_leaf, body]
    exact .nil level
  | block prototype assignments inductionHypothesis =>
    rw [opens_head_block, body]
    have inside := nested_assignedBody fun pair member =>
      inductionHypothesis pair member (level + 1)
    exact inside.append (.closing (.nil level))

/-! ### Lines that open a block -/

theorem countP_opens_assignedBody {indentation : String} {level : Nat}
    {assignments : List (String × Outline)}
    (values : ∀ pair ∈ assignments,
      (pair.2.head :: pair.2.body indentation level).countP Text.opens = pair.2.blocks) :
    (assignedBody indentation level assignments).countP Text.opens =
      assignedBlocks assignments := by
  induction assignments with
  | nil => rw [assignedBody, assignedBlocks, List.countP_nil]
  | cons pair rest inductionHypothesis =>
    obtain ⟨name, outline⟩ := pair
    have others := inductionHypothesis fun pair member =>
      values pair (List.mem_cons_of_mem _ member)
    have value := values _ List.mem_cons_self
    rw [List.countP_cons] at value
    rw [assignedBody, assignedBlocks, List.countP_cons, List.countP_append, others, ← value,
      opens_assignment]
    exact Nat.add_right_comm _ _ _

/-- Every line that goes one level in opens a block, and every block is opened by one. -/
theorem Outline.countP_opens (indentation : String) (level : Nat) (outline : Outline) :
    (outline.head :: outline.body indentation level).countP Text.opens = outline.blocks := by
  induction outline using Outline.induction generalizing level with
  | leaf content =>
    rw [body, blocks, List.countP_cons, opens_head_leaf]
    rfl
  | block prototype assignments inductionHypothesis =>
    have inside := countP_opens_assignedBody fun pair member =>
      inductionHypothesis pair member (level + 1)
    rw [body, blocks, List.countP_cons_of_pos (opens_head_block prototype assignments),
      List.countP_append, inside, List.countP_singleton, Text.opens_closing]
    rfl

/-! ### Documents -/

/-- The layout of a written document follows its nesting, whatever indentation it has. Its first
line is the head of its outline, with nothing in front. Count the lines that go one level in and the
lines after the first that go one level out: before every later line the first are ahead, and the
line stands at the level that they are ahead by. There it is an assignment, or it is the closing
brace of that level. In the end they are equal, and there is a line that goes in for each element
that is visited and for each list of several siblings. -/
theorem render_nesting {indentation : String} {limit : Option Nat} {nodes : List Node}
    {text : String} (line : '\n' ∉ indentation.toList) (obeys : DocumentObeys oneLine nodes)
    (renders : (Settings.render ⟨indentation, limit⟩ nodes).result = .ok text) :
    ∃ later,
      Text.lines text.toList = (Siblings.outline (Siblings.significant nodes)).head :: later ∧
      (∀ before current after, later = before ++ current :: after →
        ∃ level,
          ((Siblings.outline (Siblings.significant nodes)).head :: before).countP Text.opens =
            before.countP (Text.closes indentation) + (level + 1) ∧
          (current = Text.closing indentation level ∨
            ∃ name value, current = Text.assignment indentation (level + 1) name value)) ∧
      ((Siblings.outline (Siblings.significant nodes)).head :: later).countP Text.opens =
        later.countP (Text.closes indentation) ∧
      ((Siblings.outline (Siblings.significant nodes)).head :: later).countP Text.opens =
        (visited nodes).countP Node.isElement + (visited nodes).countP Node.holdsSeveral +
          if 2 ≤ (Siblings.significant nodes).length then 1 else 0 := by
  have outline := documentOutline_obeys oneLine_carries obeys
  have blocks := Siblings.blocks_outline fun node (_ : node ∈ Siblings.significant nodes) =>
    node.blocks_outline
  have written : text.toList =
      (Siblings.outline (Siblings.significant nodes)).chars indentation := by
    rw [eq_print_of_render_ok renders]
    rfl
  generalize Siblings.outline (Siblings.significant nodes) = tree at outline blocks written ⊢
  have indented : indentation.toList = Text.margin indentation 0 := (List.append_nil _).symm
  have nested := tree.nested_body indentation 0
  have opened (lines : List (List Char)) :
      (tree.head :: lines).countP Text.opens =
        0 + (Text.opens tree.head).toNat + lines.countP Text.opens := by
    rw [List.countP_cons]
    cases Text.opens tree.head <;> simp [Nat.add_comm]
  refine ⟨tree.body indentation 0, ?_, fun before current after split => ?_, ?_, ?_⟩
  · rw [written, Outline.lines_chars line outline indented]
  · rw [split] at nested
    rw [opened]
    exact nested.level_line
  · rw [opened]
    exact nested.level_eq
  · rw [tree.countP_opens, blocks, Nat.add_comm]
    rfl

/-- Braces in a text and in an expression, beside an element, a routed child and two lists of
several siblings. -/
theorem render_nesting_braces :
    let part := Node.element
      ⟨"Vendor:Part", [("@path", .leaf (.literal "slot"))], [.leaf (.text "\x7b")], false⟩
    let tag := Node.element ⟨"a", [("title", .leaf (.expression "\x7b"))],
      [part, .leaf (.text "\n\x7b"), .leaf (.boolean true)], false⟩
    let nodes := [tag, .leaf (.text "\x7d")]
    let text := "Neos.Fusion:Array \x7b\n     1 = Neos.Fusion:Tag \x7b\n" ++
      "         tagName = 'a'\n         attributes.title = $\x7b\x7b\x7d\n" ++
      "         slot = Vendor:Part \x7b\n             content = '\x7b'\n         \x7d\n" ++
      "         content = Neos.Fusion:Array \x7b\n             1 = '\x7b'\n" ++
      "             2 = true\n         \x7d\n     \x7d\n     2 = '\x7d'\n \x7d"
    '\n' ∉ " ".toList ∧ DocumentObeys oneLine nodes ∧
      (Settings.render ⟨" ", none⟩ nodes).result = .ok text ∧
      ∃ later, Text.lines text.toList = "Neos.Fusion:Array \x7b".toList :: later ∧
        (∀ before current after, later = before ++ current :: after →
          ∃ level, ("Neos.Fusion:Array \x7b".toList :: before).countP Text.opens =
              before.countP (Text.closes " ") + (level + 1) ∧
            (current = Text.closing " " level ∨
              ∃ name value, current = Text.assignment " " (level + 1) name value)) ∧
        ("Neos.Fusion:Array \x7b".toList :: later).countP Text.opens =
          later.countP (Text.closes " ") ∧
        ("Neos.Fusion:Array \x7b".toList :: later).countP Text.opens = 2 + 1 + 1 := by
  intro part tag nodes text
  have line : '\n' ∉ " ".toList := by decide
  have obeys : DocumentObeys oneLine nodes := by decide +kernel
  have renders : (Settings.render ⟨" ", none⟩ nodes).result = .ok text := by decide +kernel
  have head : (Siblings.outline (Siblings.significant nodes)).head =
      "Neos.Fusion:Array \x7b".toList := by decide +kernel
  have elements : (visited nodes).countP Node.isElement = 2 := by decide +kernel
  have lists : (visited nodes).countP Node.holdsSeveral = 1 := by decide +kernel
  obtain ⟨later, lines, levels, closed, opened⟩ := render_nesting line obeys renders
  rw [head] at lines levels closed opened
  rw [elements, lists] at opened
  exact ⟨line, obeys, renders, later, lines, levels, closed, opened⟩

end MarkupBlocks
