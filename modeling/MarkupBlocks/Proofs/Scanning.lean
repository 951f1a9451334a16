/-
A text that is scanned for its literals.

The scanner knows braces, quotes and backslashes and nothing else of the written form. A piece
of text is contained when the scanner comes out of it as it went in, at the depth that it had
and outside every literal, and has never been at a smaller depth on the way. Pieces that are
contained can be put one after the other and between braces, and a piece between quotes is
contained as soon as nothing in it ends its literal.
-/

import MarkupBlocks.Proofs.Literals
import Mathlib.Tactic.Tauto

namespace MarkupBlocks

/-! ### The scanner -/

/-- What is known of a text that is read from left to right. -/
structure Scan where
  /-- How many more braces were opened than closed. -/
  depth : Int := 0
  /-- The start of the literal that is being read, and whether its next character is taken. -/
  literal : Option (List Char × Bool) := none
  /-- The literals that were read to their end. -/
  seen : List String := []
deriving DecidableEq

/-- Reads one more character. Braces count outside literals only. -/
def Scan.step (scan : Scan) (char : Char) : Scan :=
  match scan.literal with
  | none =>
    if char = '\x7b' then { scan with depth := scan.depth + 1 }
    else if char = '\x7d' then { scan with depth := scan.depth - 1 }
    else if char = '\'' then { scan with literal := some ([char], false) }
    else scan
  | some (read, true) => { scan with literal := some (read ++ [char], false) }
  | some (read, false) =>
    if char = '\\' then { scan with literal := some (read ++ [char], true) }
    else if char = '\'' then
      { scan with literal := none, seen := scan.seen ++ [String.ofList (read ++ [char])] }
    else { scan with literal := some (read ++ [char], false) }

/-- Reads on in a text. -/
def Scan.run (scan : Scan) (chars : List Char) : Scan :=
  chars.foldl Scan.step scan

/-- Scans a text from its start. -/
def scanned (chars : List Char) : Scan :=
  Scan.run {} chars

theorem Scan.run_cons (scan : Scan) (char : Char) (rest : List Char) :
    scan.run (char :: rest) = (scan.step char).run rest := rfl

theorem Scan.run_append (scan : Scan) (left right : List Char) :
    scan.run (left ++ right) = (scan.run left).run right :=
  List.foldl_append

/-- A literal that nothing ends goes on at the depth that it was opened at. -/
theorem Scan.run_inside {taken later : Bool} {chars : List Char}
    (inside : Text.takenAfter? taken chars = some later) (depth : Int) (read : List Char)
    (seen : List String) :
    Scan.run ⟨depth, some (read, taken), seen⟩ chars =
      ⟨depth, some (read ++ chars, later), seen⟩ := by
  induction chars generalizing taken read with
  | nil =>
    rw [Option.some.inj inside, List.append_nil]
    rfl
  | cons char rest inductionHypothesis =>
    have onward (next : Bool) (goesOn : Text.takenAfter? next rest = some later) :=
      inductionHypothesis goesOn (read ++ [char])
    rw [List.append_assoc, List.singleton_append] at onward
    rw [Text.takenAfter?] at inside
    cases taken with
    | true => exact onward false inside
    | false =>
      rw [if_neg Bool.false_ne_true] at inside
      rw [Scan.run_cons]
      split at inside
      · next backslash =>
        simp only [Scan.step, if_pos backslash]
        exact onward true inside
      · next noBackslash =>
        split at inside
        · exact absurd inside.symm (Option.some_ne_none later)
        · next noQuote =>
          simp only [Scan.step, if_neg noBackslash, if_neg noQuote]
          exact onward false inside

/-! ### Contained text -/

/-- The scanner comes out of a text as it went in, with the literals given, and has not been at
a smaller depth on the way. -/
structure Contained (chars : List Char) (literals : List String) : Prop where
  ends : ∀ depth seen,
    Scan.run ⟨depth, none, seen⟩ chars = ⟨depth, none, seen ++ literals⟩
  floor : ∀ depth seen start, start <+: chars → depth ≤ (Scan.run ⟨depth, none, seen⟩ start).depth

/-- No quote and no brace. -/
def Plain (chars : List Char) : Prop :=
  '\'' ∉ chars ∧ '\x7b' ∉ chars ∧ '\x7d' ∉ chars

instance (chars : List Char) : Decidable (Plain chars) :=
  inferInstanceAs (Decidable (_ ∧ _ ∧ _))

theorem plain_cons_iff {char : Char} {rest : List Char} :
    Plain (char :: rest) ↔ Plain [char] ∧ Plain rest := by
  simp only [Plain, List.mem_cons, List.not_mem_nil, or_false, not_or]
  tauto

theorem plain_append_iff {left right : List Char} :
    Plain (left ++ right) ↔ Plain left ∧ Plain right := by
  simp only [Plain, List.mem_append, not_or]
  tauto

theorem prefix_of_append {start left right : List Char} (shorter : start <+: left ++ right) :
    start <+: left ∨ ∃ later, later <+: right ∧ start = left ++ later := by
  obtain ⟨rest, split⟩ := shorter
  rcases List.append_eq_append_iff.mp split with ⟨middle, whole, -⟩ | ⟨middle, whole, tail⟩
  · exact .inl ⟨middle, whole.symm⟩
  · exact .inr ⟨middle, ⟨rest, tail.symm⟩, whole⟩

/-- What a text between two marks can start with. -/
theorem prefix_of_wrapped {start middle : List Char} {first last : Char}
    (shorter : start <+: first :: middle ++ [last]) :
    start = [] ∨ (∃ inner, inner <+: middle ∧ start = first :: inner) ∨
      start = first :: middle ++ [last] := by
  rcases prefix_of_append shorter with within | ⟨later, beyond, rfl⟩
  · rcases List.prefix_cons_iff.mp within with rfl | ⟨inner, rfl, inside⟩
    · exact .inl rfl
    · exact .inr (.inl ⟨inner, inside, rfl⟩)
  · rcases List.prefix_cons_iff.mp beyond with rfl | ⟨none, rfl, nothing⟩
    · exact .inr (.inl ⟨middle, List.prefix_rfl, List.append_nil _⟩)
    · rw [List.prefix_nil.mp nothing]
      exact .inr (.inr rfl)

theorem contained_nil : Contained [] [] where
  ends depth seen := by
    rw [List.append_nil]
    rfl
  floor depth seen start shorter := by
    rw [List.prefix_nil.mp shorter]
    exact Int.le_refl depth

theorem Contained.append {left right : List Char} {leftLiterals rightLiterals : List String}
    (first : Contained left leftLiterals) (second : Contained right rightLiterals) :
    Contained (left ++ right) (leftLiterals ++ rightLiterals) where
  ends depth seen := by
    rw [Scan.run_append, first.ends, second.ends, List.append_assoc]
  floor depth seen start shorter := by
    rcases prefix_of_append shorter with within | ⟨later, beyond, rfl⟩
    · exact first.floor depth seen start within
    · rw [Scan.run_append, first.ends]
      exact second.floor depth _ later beyond

/-- Plain text says nothing to the scanner. -/
theorem contained_of_plain {chars : List Char} (plain : Plain chars) : Contained chars [] := by
  induction chars with
  | nil => exact contained_nil
  | cons char rest inductionHypothesis =>
    obtain ⟨⟨noQuote, noOpening, noClosing⟩, later⟩ := plain_cons_iff.mp plain
    rw [List.mem_singleton, eq_comm] at noQuote noOpening noClosing
    have still (depth : Int) (seen : List String) :
        Scan.step ⟨depth, none, seen⟩ char = ⟨depth, none, seen⟩ := by
      simp only [Scan.step, if_neg noOpening, if_neg noClosing, if_neg noQuote]
    refine ⟨fun depth seen => ?_, fun depth seen start shorter => ?_⟩
    · rw [Scan.run_cons, still, (inductionHypothesis later).ends]
    · rcases List.prefix_cons_iff.mp shorter with rfl | ⟨onward, rfl, within⟩
      · exact Int.le_refl depth
      · rw [Scan.run_cons, still]
        exact (inductionHypothesis later).floor depth seen onward within

/-- Between braces a contained text stays contained, one level deeper. -/
theorem Contained.braces {chars : List Char} {literals : List String}
    (inner : Contained chars literals) :
    Contained ('\x7b' :: chars ++ ['\x7d']) literals := by
  have opening (depth : Int) (seen : List String) :
      Scan.step ⟨depth, none, seen⟩ '\x7b' = ⟨depth + 1, none, seen⟩ := rfl
  have closing (depth : Int) (seen : List String) :
      Scan.run ⟨depth + 1, none, seen⟩ ['\x7d'] = ⟨depth, none, seen⟩ := by
    show Scan.mk (depth + 1 - 1) none seen = _
    rw [Int.add_sub_cancel]
  have whole (depth : Int) (seen : List String) :
      Scan.run ⟨depth, none, seen⟩ ('\x7b' :: chars ++ ['\x7d']) =
        ⟨depth, none, seen ++ literals⟩ := by
    rw [List.cons_append, Scan.run_cons, opening, Scan.run_append, inner.ends, closing]
  refine ⟨whole, fun depth seen start shorter => ?_⟩
  rcases prefix_of_wrapped shorter with rfl | ⟨inside, within, rfl⟩ | rfl
  · exact Int.le_refl depth
  · rw [Scan.run_cons, opening]
    exact Int.le_trans (Int.le_add_one (Int.le_refl depth))
      (inner.floor (depth + 1) seen inside within)
  · exact Int.le_of_eq (congrArg Scan.depth (whole depth seen)).symm

/-- Between quotes any text that does not end its literal is contained, as that literal. -/
theorem contained_of_quoted {chars : List Char}
    (inside : Text.takenAfter? false chars = some false) :
    Contained ('\'' :: chars ++ ['\'']) [String.ofList ('\'' :: chars ++ ['\''])] := by
  have opening (depth : Int) (seen : List String) :
      Scan.step ⟨depth, none, seen⟩ '\'' = ⟨depth, some (['\''], false), seen⟩ := rfl
  have closing (depth : Int) (seen : List String) (read : List Char) :
      Scan.run ⟨depth, some (read, false), seen⟩ ['\''] =
        ⟨depth, none, seen ++ [String.ofList (read ++ ['\''])]⟩ := rfl
  have whole (depth : Int) (seen : List String) :
      Scan.run ⟨depth, none, seen⟩ ('\'' :: chars ++ ['\'']) =
        ⟨depth, none, seen ++ [String.ofList ('\'' :: chars ++ ['\''])]⟩ := by
    rw [List.cons_append, Scan.run_cons, opening, Scan.run_append, Scan.run_inside inside, closing]
    rfl
  refine ⟨whole, fun depth seen start shorter => ?_⟩
  rcases prefix_of_wrapped shorter with rfl | ⟨start, ⟨rest, split⟩, rfl⟩ | rfl
  · exact Int.le_refl depth
  · -- What is still open at the end was open at every point before it.
    rw [← split, Text.takenAfter?_append] at inside
    obtain ⟨later, before, -⟩ := Option.bind_eq_some_iff.mp inside
    have still : (Scan.run ⟨depth, none, seen⟩ ('\'' :: start)).depth = depth := by
      rw [Scan.run_cons, opening, Scan.run_inside before]
    exact Int.le_of_eq still.symm
  · exact Int.le_of_eq (congrArg Scan.depth (whole depth seen)).symm

end MarkupBlocks
