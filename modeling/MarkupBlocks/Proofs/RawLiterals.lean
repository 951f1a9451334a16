/-
The literals of raw texts.

Every escape of raw text is read as the character that it was made from, so a raw text is read back,
and no other text has its literal. Such a literal can be told by looking at it. It is put together
from characters that mean nothing in a literal and from the escapes of those that do, and each of
these items is made from one character, so the items spell the text of the literal.
-/

import Mathlib.Data.Set.List
import MarkupBlocks.Proofs.Decoding

namespace MarkupBlocks.Text

/-- One item of a raw literal: a character that means nothing in a literal, or an escape. -/
inductive RawItem : List Char → Prop
  | plain {char : Char} (free : char ∉ ['\'', '"', '\\', '\x00']) : RawItem [char]
  | escaped {char : Char} (special : char ∈ ['\'', '"', '\\']) : RawItem ['\\', char]
  | nul : RawItem ['\\', '0']

/-- A raw literal is a quote, any items, and a quote. -/
def RawLiteral (literal : String) : Prop :=
  ∃ items : List (List Char), (∀ item ∈ items, RawItem item) ∧
    literal.toList = '\'' :: items.flatten ++ ['\'']

theorem rawItem_iff {item : List Char} : RawItem item ↔ ∃ char, escapeRaw char = item := by
  constructor
  · intro raw
    cases raw with
    | @plain char free =>
      simp only [List.mem_cons, List.not_mem_nil, or_false, not_or] at free
      exact ⟨char, escapeRaw.eq_5 char free.1 free.2.1 free.2.2.1 free.2.2.2⟩
    | @escaped char special =>
      simp only [List.mem_cons, List.not_mem_nil, or_false] at special
      rcases special with rfl | rfl | rfl
      · exact ⟨'\'', rfl⟩
      · exact ⟨'"', rfl⟩
      · exact ⟨'\\', rfl⟩
    | nul => exact ⟨'\x00', rfl⟩
  · rintro ⟨char, rfl⟩
    unfold escapeRaw
    split
    · exact .escaped (by decide)
    · exact .escaped (by decide)
    · exact .escaped (by decide)
    · exact .nul
    · next noQuote noDouble noBackslash noNul =>
      refine .plain ?_
      simp only [List.mem_cons, List.not_mem_nil, or_false, not_or]
      exact ⟨noQuote, noDouble, noBackslash, noNul⟩

/-- The raw literals are what raw texts are written as. -/
theorem rawLiteral_iff {literal : String} :
    RawLiteral literal ↔ ∃ text, quoteRaw text = literal := by
  constructor
  · rintro ⟨items, raw, written⟩
    -- Each item is the escape of one character, and these make up the text.
    have escapes : items ∈ Set.range (List.map escapeRaw) := by
      rw [Set.range_list_map]
      exact fun item member => rawItem_iff.mp (raw item member)
    obtain ⟨chars, rfl⟩ := escapes
    refine ⟨String.ofList chars, ?_⟩
    rw [quoteRaw, quoted, String.toList_ofList, ← String.toList_inj, String.toList_ofList, written,
      List.flatMap_def]
  · rintro ⟨text, rfl⟩
    refine ⟨text.toList.map escapeRaw, ?_, ?_⟩
    · exact List.forall_mem_map.mpr fun char _ => rawItem_iff.mpr ⟨char, rfl⟩
    · rw [quoteRaw, quoted, String.toList_ofList, List.flatMap_def]

/-- The escapes of raw text are read as the characters that they are made from. -/
theorem readAs_escapeRaw (char : Char) : ReadAs (escapeRaw char) char := by
  intro rest
  unfold escapeRaw
  split
  · rfl
  · rfl
  · rfl
  · rfl
  · next noQuote _ noBackslash _ =>
    rw [List.singleton_append, readLiteral?, if_neg Bool.false_ne_true, if_neg noBackslash,
      if_neg noQuote]

theorem content?_quoteRaw (text : String) : content? (quoteRaw text) = some text :=
  content?_quoted fun char _ => readAs_escapeRaw char

theorem quoteRaw_injective : Function.Injective quoteRaw := by
  intro text other same
  have read := content?_quoteRaw text
  rw [same, content?_quoteRaw] at read
  exact (Option.some.inj read).symm

/-- Texts and raw literals stand for each other. A raw text is read back, and its literal ends where
the reader does. A string is the literal of a raw text exactly when it is a raw literal; then it is
the literal of one text only, and the text that it is read as is written as that string again. -/
theorem existsUnique_quoteRaw_iff_rawLiteral :
    (∀ text, content? (quoteRaw text) = some text) ∧
      ∀ literal,
        ((∃ text, quoteRaw text = literal) ↔ RawLiteral literal) ∧
        (RawLiteral literal ↔ ∃! text, quoteRaw text = literal) ∧
        (RawLiteral literal ↔ (content? literal).map quoteRaw = some literal) := by
  refine ⟨content?_quoteRaw, fun literal => ⟨rawLiteral_iff.symm, ?_, ?_⟩⟩
  · rw [rawLiteral_iff]
    refine ⟨?_, ExistsUnique.exists⟩
    rintro ⟨text, written⟩
    exact ⟨text, written, fun other again => quoteRaw_injective (again.trans written.symm)⟩
  · rw [rawLiteral_iff, Option.map_eq_some_iff]
    constructor
    · rintro ⟨text, rfl⟩
      exact ⟨text, content?_quoteRaw text, rfl⟩
    · rintro ⟨text, -, written⟩
      exact ⟨text, written⟩

/-- The escape of NUL is a backslash and a zero, and these two are still written in another way. -/
example : quoteRaw "\x00" = "'\\0'" ∧ quoteRaw "\\0" = "'\\\\0'" := by
  decide +kernel

end MarkupBlocks.Text
