/-
What is left of an attribute value in its literal.

The backslashes of an attribute value are its author's, and a reader of its literal does not know
them from those that the escapes put there. The literal ends where it should when the backslashes
pair up. It says less than the value as soon as there is any backslash: the first one takes the
character after it and is not read itself, and nothing that is read makes up for it, since each
character of the value gives one character at most. But no two values have one literal. The last
character of an escape is the one that is escaped, so the value can be told from its literal from
right to left.
-/

import Mathlib.Data.List.Induction
import MarkupBlocks.Proofs.Decoding

namespace MarkupBlocks.Text

/-! ### What is read of an attribute value -/

theorem readAs_escapeAttribute {char : Char} (other : char ≠ '\\') :
    ReadAs (escapeAttribute char) char := by
  intro rest
  by_cases quote : char = '\''
  · rw [quote]
    rfl
  · rw [escapeAttribute.eq_2 char quote, List.singleton_append, readLiteral?,
      if_neg Bool.false_ne_true, if_neg other, if_neg quote]

/-- No more is read than was written. -/
theorem length_le_of_readLiteral? {taken : Bool} {chars content left : List Char}
    (read : readLiteral? taken (chars.flatMap escapeAttribute ++ ['\'']) = some (content, left)) :
    content.length ≤ chars.length := by
  induction chars generalizing taken content with
  | nil =>
    cases taken with
    | false => exact Nat.le_of_eq (congrArg List.length (Prod.mk.inj (Option.some.inj read)).1.symm)
    | true => exact absurd read nofun
  | cons char rest inductionHypothesis =>
    rw [List.flatMap_cons, List.append_assoc] at read
    have onward {char : Char} (read : (readLiteral? false (rest.flatMap escapeAttribute ++
        ['\''])).map (prepend char) = some (content, left)) :
        content.length ≤ rest.length + 1 := by
      obtain ⟨later, found, rfl⟩ := map_prepend_eq_some_iff.mp read
      exact Nat.succ_le_succ (inductionHypothesis found)
    by_cases quote : char = '\''
    · subst quote
      cases taken with
      | false => exact onward read
      | true =>
        -- The value's own backslash takes the one of the escape, and the quote ends the literal.
        rw [← (Prod.mk.inj (Option.some.inj read)).1]
        exact Nat.le_add_left 1 rest.length
    · rw [escapeAttribute.eq_2 char quote, List.singleton_append, readLiteral?] at read
      split at read
      · exact onward read
      · split at read
        · exact Nat.le_succ_of_le (inductionHypothesis read)
        · exact onward read

/-- An attribute value is read back exactly when there is no backslash in it. -/
theorem content?_quoteAttribute_eq_iff (value : String) :
    content? (quoteAttribute value) = some value ↔ '\\' ∉ value.toList := by
  constructor
  · intro read
    rw [quoteAttribute, content?_quoted_eq_some_iff] at read
    generalize value.toList = chars at read ⊢
    induction chars with
    | nil => exact List.not_mem_nil
    | cons char rest inductionHypothesis =>
      rw [List.flatMap_cons, List.append_assoc] at read
      by_cases backslash : char = '\\'
      · -- The first backslash is not read, and what follows is too short to make up for it.
        subst backslash
        have short : ('\\' :: rest).length ≤ rest.length := length_le_of_readLiteral? read
        exact absurd short (Nat.not_succ_le_self rest.length)
      · rw [readAs_escapeAttribute backslash] at read
        obtain ⟨later, found, same⟩ := map_prepend_eq_some_iff.mp read
        obtain ⟨-, rfl⟩ := List.cons.inj same
        rw [List.mem_cons, not_or]
        exact ⟨Ne.symm backslash, inductionHypothesis found⟩
  · intro free
    exact content?_quoted fun char member =>
      readAs_escapeAttribute fun same => free (same ▸ member)

/-! ### One value for each literal -/

theorem getLast?_escapeAttribute (char : Char) : (escapeAttribute char).getLast? = some char := by
  unfold escapeAttribute
  split <;> rfl

theorem getLast?_flatMap_escapeAttribute (chars : List Char) :
    (chars.flatMap escapeAttribute).getLast? = chars.getLast? := by
  rcases List.eq_nil_or_concat chars with rfl | ⟨rest, last, rfl⟩
  · rfl
  · rw [List.concat_eq_append, List.flatMap_append, List.flatMap_singleton, List.getLast?_append,
      getLast?_escapeAttribute, List.getLast?_concat, Option.some_or]

theorem eq_of_flatMap_escapeAttribute_eq {chars others : List Char}
    (same : chars.flatMap escapeAttribute = others.flatMap escapeAttribute) : chars = others := by
  have ends {chars others : List Char}
      (same : chars.flatMap escapeAttribute = others.flatMap escapeAttribute) :
      chars.getLast? = others.getLast? := by
    rw [← getLast?_flatMap_escapeAttribute, same, getLast?_flatMap_escapeAttribute]
  induction chars using List.reverseRecOn generalizing others with
  | nil => exact (List.getLast?_eq_none_iff.mp (ends same).symm).symm
  | append_singleton rest last inductionHypothesis =>
    obtain ⟨before, rfl⟩ :=
      List.getLast?_eq_some_iff.mp ((ends same).symm.trans List.getLast?_concat)
    rw [List.flatMap_append, List.flatMap_append, List.append_cancel_right_eq] at same
    rw [inductionHypothesis same]

theorem quoteAttribute_injective : Function.Injective quoteAttribute := by
  intro value other same
  rw [quoteAttribute, quoteAttribute, quoted, quoted, ← String.toList_inj, String.toList_ofList,
    String.toList_ofList, List.append_cancel_right_eq, List.cons_inj_right] at same
  exact String.toList_inj.mp (eq_of_flatMap_escapeAttribute_eq same)

/-- The literal of an attribute value ends where it should exactly when the backslashes pair up
before each quote of the value and at its end. It says the value exactly when there is no backslash
at all. Two values never have the same literal, whatever backslashes there are. -/
theorem content?_quoteAttribute_iff (value : String) :
    ((∃ content, content? (quoteAttribute value) = some content) ↔
        PairedBackslashes value.toList) ∧
      (content? (quoteAttribute value) = some value ↔ '\\' ∉ value.toList) ∧
      ∀ other, quoteAttribute value = quoteAttribute other ↔ value = other := by
  refine ⟨?_, content?_quoteAttribute_eq_iff value, fun other => quoteAttribute_injective.eq_iff⟩
  rw [quoteAttribute, exists_content?_quoted_iff, takenAfter?_escapeAttribute_iff,
    pairsBackslashes_iff]

/-- A backslash at the end takes the closing quote. Two of them are safe, but read as one. -/
example : content? (quoteAttribute "C:\\") = none ∧
    content? (quoteAttribute "C:\\\\") = some "C:\\" := by
  decide +kernel

end MarkupBlocks.Text
