/-
Where a literal ends.

Inside a literal a backslash takes the next character with it, so a quote ends the literal
unless a backslash stands before it that is not itself taken. An attribute value keeps the
backslashes of its author. It is safe when they pair up wherever it matters: before a quote,
which gets a backslash of its own, and before the end, where the closing quote follows.
-/

import MarkupBlocks.Text.Quoted

namespace MarkupBlocks.Text

/-- Each maximal run of backslashes that is followed by a quote or by the end has even length. -/
def PairedBackslashes (chars : List Char) : Prop :=
  ∀ before count after, chars = before ++ (List.replicate count '\\' ++ after) →
    before.getLast? ≠ some '\\' → (after = [] ∨ after.head? = some '\'') → count % 2 = 0

/-- The same, read from left to right. A reader needs to know no more of the run that it stands
in than whether its length is odd, so that the next character is taken. -/
def pairsBackslashes (taken : Bool) : List Char → Bool
  | [] => !taken
  | char :: rest =>
    if char = '\\' then pairsBackslashes (!taken) rest
    else (!taken || char != '\'') && pairsBackslashes false rest

/-! ### Runs of backslashes -/

theorem takeWhile_run {after : List Char} (stops : after.head? ≠ some '\\') (count : Nat) :
    (List.replicate count '\\' ++ after).takeWhile (· == '\\') = List.replicate count '\\' := by
  have none : after.takeWhile (· == '\\') = [] := by
    cases after with
    | nil => rfl
    | cons char rest =>
      refine List.takeWhile_cons_of_neg fun same => stops ?_
      rw [List.head?_cons, beq_iff_eq.mp same]
  rw [List.takeWhile_append_of_pos fun char member =>
    beq_iff_eq.mpr (List.eq_of_mem_replicate member), none, List.append_nil]

theorem run_inj {left right : Nat} {leftAfter rightAfter : List Char}
    (leftStops : leftAfter.head? ≠ some '\\') (rightStops : rightAfter.head? ≠ some '\\')
    (same : List.replicate left '\\' ++ leftAfter = List.replicate right '\\' ++ rightAfter) :
    left = right ∧ leftAfter = rightAfter := by
  have runs : List.replicate left '\\' = List.replicate right '\\' := by
    rw [← takeWhile_run leftStops left, same, takeWhile_run rightStops right]
  have counts : left = right := by
    rw [← List.length_replicate (n := left) (a := '\\'), runs, List.length_replicate]
  subst counts
  exact ⟨rfl, List.append_cancel_left same⟩

/-- What is left of a run has an end that is no backslash only when it is all gone. -/
theorem eq_nil_of_run {start rest : List Char} {count : Nat}
    (split : List.replicate count '\\' = start ++ rest) (stops : start.getLast? ≠ some '\\') :
    start = [] := by
  refine List.getLast?_eq_none_iff.mp (Option.eq_none_iff_forall_ne_some.mpr fun last ends => ?_)
  have member : last ∈ List.replicate count '\\' := by
    rw [split]
    exact List.mem_append_left _ (List.mem_of_getLast? ends)
  rw [List.eq_of_mem_replicate member] at ends
  exact stops ends

theorem head?_ne_of_ends {after : List Char} (ends : after = [] ∨ after.head? = some '\'') :
    after.head? ≠ some '\\' := by
  rcases ends with rfl | quote
  · exact nofun
  · rw [quote]
    decide

/-- A run at the end pairs up when its length is even. -/
theorem pairedBackslashes_replicate_iff (count : Nat) :
    PairedBackslashes (List.replicate count '\\') ↔ count % 2 = 0 := by
  constructor
  · intro paired
    exact paired [] count [] (by rw [List.nil_append, List.append_nil]) nofun (.inl rfl)
  · intro even before length after split starts ends
    rw [eq_nil_of_run split starts, List.nil_append, ← List.append_nil (List.replicate count _)]
      at split
    have none : ([] : List Char).head? ≠ some '\\' := nofun
    rw [← (run_inj none (head?_ne_of_ends ends) split).1]
    exact even

section Run

variable {char : Char} (other : char ≠ '\\') (count : Nat) {rest : List Char}

include other

/-- What follows a run and another character pairs up on its own. -/
theorem pairedBackslashes_of_run
    (paired : PairedBackslashes (List.replicate count '\\' ++ char :: rest)) :
    PairedBackslashes rest := by
  intro before length after split starts ends
  refine paired (List.replicate count '\\' ++ char :: before) length after ?_ ?_ ends
  · rw [split, List.append_assoc, List.cons_append]
  · intro last
    rw [List.getLast?_append, List.getLast?_cons, Option.some_or] at last
    cases found : before.getLast? with
    | none =>
      rw [found] at last
      exact other (Option.some.inj last)
    | some final =>
      rw [found] at last
      exact starts (found.trans last)

/-- A run in front of another character leaves what follows as it is. -/
theorem pairedBackslashes_run (even : char = '\'' → count % 2 = 0)
    (paired : PairedBackslashes rest) :
    PairedBackslashes (List.replicate count '\\' ++ char :: rest) := by
  have stops : (char :: rest).head? ≠ some '\\' := fun same => other (Option.some.inj same)
  intro before length after split starts ends
  rcases List.append_eq_append_iff.mp split with ⟨middle, prior, later⟩ | ⟨middle, prior, later⟩
  · cases middle with
    | nil =>
      -- The run starts where the other character stands, so it is empty.
      have aligned : List.replicate 0 '\\' ++ char :: rest =
          List.replicate length '\\' ++ after := later
      rw [← (run_inj stops (head?_ne_of_ends ends) aligned).1]
    | cons head middle =>
      obtain ⟨rfl, within⟩ := List.cons.inj later
      refine paired middle length after within (fun last => starts ?_) ends
      rw [prior, List.getLast?_append, List.getLast?_cons, last]
      rfl
  · have start : before = [] := eq_nil_of_run prior starts
    rw [start, List.nil_append] at split
    obtain ⟨rfl, rfl⟩ := run_inj stops (head?_ne_of_ends ends) split
    rcases ends with empty | quote
    · exact absurd empty (List.cons_ne_nil _ _)
    · exact even (Option.some.inj quote)

/-- A run in front of another character pairs up when its length is even or the character is no
quote. -/
theorem pairedBackslashes_run_iff :
    PairedBackslashes (List.replicate count '\\' ++ char :: rest) ↔
      (char = '\'' → count % 2 = 0) ∧ PairedBackslashes rest := by
  refine ⟨fun paired => ⟨fun quote => ?_, pairedBackslashes_of_run other count paired⟩,
    fun ⟨even, paired⟩ => pairedBackslashes_run other count even paired⟩
  exact paired [] count (char :: rest) rfl nofun (.inr (congrArg some quote))

end Run

theorem pairsBackslashes_iff_run (chars : List Char) (count : Nat) :
    pairsBackslashes (decide (count % 2 = 1)) chars = true ↔
      PairedBackslashes (List.replicate count '\\' ++ chars) := by
  induction chars generalizing count with
  | nil =>
    rw [List.append_nil, pairedBackslashes_replicate_iff, pairsBackslashes, Bool.not_eq_true',
      decide_eq_false_iff_not]
    omega
  | cons char rest inductionHypothesis =>
    rw [pairsBackslashes]
    split
    · next backslash =>
      have parity : (!decide (count % 2 = 1)) = decide ((count + 1) % 2 = 1) := by
        rw [← decide_not]
        exact decide_eq_decide.mpr (by omega)
      rw [parity, inductionHypothesis (count + 1), backslash, List.replicate_succ',
        List.append_assoc, List.singleton_append]
    · next other =>
      have start := inductionHypothesis 0
      rw [List.replicate_zero, List.nil_append] at start
      rw [pairedBackslashes_run_iff other, Bool.and_eq_true, ← start, Bool.or_eq_true,
        Bool.not_eq_true', decide_eq_false_iff_not, bne_iff_ne]
      refine and_congr_left fun _ => ⟨fun safe quote => ?_, fun even => ?_⟩
      · exact (by omega : ¬ count % 2 = 1 → count % 2 = 0)
          (safe.resolve_right fun different => different quote)
      · by_cases quote : char = '\''
        · exact .inl (by have := even quote; omega)
        · exact .inr quote

theorem pairsBackslashes_iff (chars : List Char) :
    pairsBackslashes false chars = true ↔ PairedBackslashes chars :=
  pairsBackslashes_iff_run chars 0

instance (chars : List Char) : Decidable (PairedBackslashes chars) :=
  decidable_of_iff _ (pairsBackslashes_iff chars)

/-! ### Inside a literal -/

/-- Whether the character after the ones given is taken, provided that none of them ends the
literal that they are in. -/
def takenAfter? (taken : Bool) : List Char → Option Bool
  | [] => some taken
  | char :: rest =>
    if taken then takenAfter? false rest
    else if char = '\\' then takenAfter? true rest
    else if char = '\'' then none
    else takenAfter? false rest

theorem takenAfter?_append (taken : Bool) (left right : List Char) :
    takenAfter? taken (left ++ right) =
      (takenAfter? taken left).bind fun later => takenAfter? later right := by
  induction left generalizing taken with
  | nil => rfl
  | cons char rest inductionHypothesis =>
    rw [List.cons_append, takenAfter?, takenAfter?]
    split
    · exact inductionHypothesis false
    · split
      · exact inductionHypothesis true
      · split
        · rfl
        · exact inductionHypothesis false

/-- A raw text never ends its own literal. -/
theorem takenAfter?_escapeRaw (chars : List Char) :
    takenAfter? false (chars.flatMap escapeRaw) = some false := by
  induction chars with
  | nil => rfl
  | cons char rest inductionHypothesis =>
    have one : takenAfter? false (escapeRaw char) = some false := by
      unfold escapeRaw
      split
      · rfl
      · rfl
      · rfl
      · rfl
      · next noQuote _ noBackslash _ =>
        rw [takenAfter?, if_neg Bool.false_ne_true, if_neg noBackslash, if_neg noQuote,
          takenAfter?]
    rw [List.flatMap_cons, takenAfter?_append, one, Option.bind_some, inductionHypothesis]

/-- An attribute value stays in its literal and leaves the closing quote alone exactly when its
backslashes pair up. -/
theorem takenAfter?_escapeAttribute_iff (taken : Bool) (chars : List Char) :
    takenAfter? taken (chars.flatMap escapeAttribute) = some false ↔
      pairsBackslashes taken chars = true := by
  induction chars generalizing taken with
  | nil =>
    cases taken with
    | false => exact ⟨fun _ => rfl, fun _ => rfl⟩
    | true => exact ⟨nofun, nofun⟩
  | cons char rest inductionHypothesis =>
    rw [List.flatMap_cons, takenAfter?_append, pairsBackslashes]
    by_cases quote : char = '\''
    · subst quote
      cases taken with
      | false =>
        show takenAfter? false _ = some false ↔ _
        rw [inductionHypothesis false]
        rfl
      | true => exact ⟨nofun, nofun⟩
    · rw [escapeAttribute.eq_2 char quote]
      split
      · next backslash =>
        subst backslash
        cases taken with
        | false => exact inductionHypothesis true
        | true => exact inductionHypothesis false
      · next other =>
        have one : takenAfter? taken [char] = some false := by
          cases taken with
          | false =>
            rw [takenAfter?, if_neg Bool.false_ne_true, if_neg other, if_neg quote, takenAfter?]
          | true => rfl
        rw [one, Option.bind_some, inductionHypothesis false, bne_iff_ne.mpr quote, Bool.or_true,
          Bool.true_and]

end MarkupBlocks.Text
