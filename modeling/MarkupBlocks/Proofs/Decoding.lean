/-
What a literal says.

A literal is read from its opening quote on. A backslash takes the next character, which then stands
for itself, but for the digit zero, which stands for NUL; a quote that is not taken ends the
literal, and every other character stands for itself. The reader gets to the closing quote of a
literal exactly when nothing before it ends the literal and it is not taken itself. When each escape
of a text is read as the character that it was made from, the text is read back.
-/

import MarkupBlocks.Proofs.Literals

namespace MarkupBlocks.Text

/-! ### Reading a literal -/

/-- What a character stands for when a backslash takes it. -/
def unescaped (char : Char) : Char :=
  if char = '0' then '\x00' else char

/-- Puts a character in front of what is read. -/
def prepend (char : Char) (read : List Char × List Char) : List Char × List Char :=
  (char :: read.1, read.2)

/-- Reads a literal after its opening quote: what it says, and what stands after its closing quote.
A literal that does not end is not read. -/
def readLiteral? (taken : Bool) : List Char → Option (List Char × List Char)
  | [] => none
  | char :: rest =>
    if taken then (readLiteral? false rest).map (prepend (unescaped char))
    else if char = '\\' then readLiteral? true rest
    else if char = '\'' then some ([], rest)
    else (readLiteral? false rest).map (prepend char)

/-- What is read, when nothing is left over. -/
def whole? : Option (List Char × List Char) → Option String
  | some (content, []) => some (String.ofList content)
  | _ => none

/-- What a literal says, when the reader ends exactly at its last character. -/
def content? (literal : String) : Option String :=
  match literal.toList with
  | '\'' :: inside => whole? (readLiteral? false inside)
  | _ => none

theorem whole?_eq_some_iff {read : Option (List Char × List Char)} {content : String} :
    whole? read = some content ↔ read = some (content.toList, []) := by
  unfold whole?
  split
  · next chars =>
    rw [Option.some_inj, Option.some_inj, Prod.mk.injEq, ← String.toList_inj,
      String.toList_ofList]
    exact (and_iff_left rfl).symm
  · next unfinished => exact iff_of_false nofun (unfinished _)

theorem content?_quoted_eq_some_iff {escape : Char → List Char} {text content : String} :
    content? (quoted escape text) = some content ↔
      readLiteral? false (text.toList.flatMap escape ++ ['\'']) = some (content.toList, []) := by
  rw [content?, quoted, String.toList_ofList, List.cons_append]
  exact whole?_eq_some_iff

/-- Characters are read as the one given when they stand outside of an escape. -/
def ReadAs (escape : List Char) (char : Char) : Prop :=
  ∀ rest, readLiteral? false (escape ++ rest) = (readLiteral? false rest).map (prepend char)

/-- A literal whose escapes are read as the characters of a text says that text. -/
theorem content?_quoted {escape : Char → List Char} {text : String}
    (each : ∀ char ∈ text.toList, ReadAs (escape char) char) :
    content? (quoted escape text) = some text := by
  have read (chars : List Char) (each : ∀ char ∈ chars, ReadAs (escape char) char) :
      readLiteral? false (chars.flatMap escape ++ ['\'']) = some (chars, []) := by
    induction chars with
    | nil => rfl
    | cons char rest inductionHypothesis =>
      obtain ⟨head, tail⟩ := List.forall_mem_cons.mp each
      rw [List.flatMap_cons, List.append_assoc, head, inductionHypothesis tail]
      rfl
  rw [content?_quoted_eq_some_iff]
  exact read text.toList each

/-! ### Where the reader ends -/

theorem map_prepend_eq_some_iff {char : Char} {read : Option (List Char × List Char)}
    {content left : List Char} :
    read.map (prepend char) = some (content, left) ↔
      ∃ later, read = some (later, left) ∧ char :: later = content := by
  rw [Option.map_eq_some_iff]
  constructor
  · rintro ⟨⟨later, _⟩, rfl, same⟩
    obtain ⟨rfl, rfl⟩ := Prod.mk.inj same
    exact ⟨later, rfl, rfl⟩
  · rintro ⟨later, rfl, rfl⟩
    exact ⟨(later, left), rfl, rfl⟩

/-- What is between two quotes is read to the second one exactly when nothing in it ends the literal
and the second quote is not taken. -/
theorem readLiteral?_closed_iff (taken : Bool) (inside : List Char) :
    (∃ content, readLiteral? taken (inside ++ ['\'']) = some (content, [])) ↔
      takenAfter? taken inside = some false := by
  induction inside generalizing taken with
  | nil =>
    cases taken with
    | false => exact iff_of_true ⟨[], rfl⟩ rfl
    | true => simp [readLiteral?, takenAfter?]
  | cons char rest inductionHypothesis =>
    have onward (read : Char) :
        (∃ content, (readLiteral? false (rest ++ ['\''])).map (prepend read) =
          some (content, [])) ↔ takenAfter? false rest = some false := by
      simp only [map_prepend_eq_some_iff, ← inductionHypothesis false]
      rw [exists_comm]
      simp only [exists_and_left, exists_eq', and_true]
    rw [List.cons_append, readLiteral?, takenAfter?]
    split
    · exact onward (unescaped char)
    · split
      · exact inductionHypothesis true
      · split
        · refine iff_of_false ?_ (Option.some_ne_none false).symm
          rintro ⟨content, read⟩
          obtain ⟨-, early⟩ := Prod.mk.inj (Option.some.inj read)
          exact List.append_ne_nil_of_right_ne_nil rest (List.cons_ne_nil _ _) early
        · exact onward char

theorem exists_content?_quoted_iff {escape : Char → List Char} {text : String} :
    (∃ content, content? (quoted escape text) = some content) ↔
      takenAfter? false (text.toList.flatMap escape) = some false := by
  simp only [content?_quoted_eq_some_iff, ← readLiteral?_closed_iff]
  constructor
  · rintro ⟨content, read⟩
    exact ⟨content.toList, read⟩
  · rintro ⟨content, read⟩
    exact ⟨String.ofList content, by rw [String.toList_ofList, read]⟩

end MarkupBlocks.Text
