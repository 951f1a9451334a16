/-
Trees whose strings are single lines.

A leaf is written on one line when its string is one, and a text among siblings always is one,
because its layout is stripped first. So only the strings that are written as they are have to be
looked at, and these are prototypes, names, codes and quoted values. A name may have to be a
single word as well, so a character that ends it is left open.
-/

import Mathlib.Data.List.Basic
import MarkupBlocks.Proofs.Layout
import MarkupBlocks.Proofs.Printing
import MarkupBlocks.Proofs.Strings

namespace MarkupBlocks

/-- Prototypes and leaves are written on one line, and names hold no character that ends a name. -/
def lineOutline (stop : Char) : OutlineRule where
  prototype text := '\n' ∉ text.toList
  name text := stop ∉ text.toList
  leaf content := '\n' ∉ content.print.toList

/-! ### Leaves on one line -/

theorem newline_notMem_flatMap {escape : Char → List Char} {text : String}
    (free : '\n' ∉ text.toList) (keeps : ∀ char, '\n' ∈ escape char → char = '\n') :
    '\n' ∉ text.toList.flatMap escape := by
  intro member
  obtain ⟨char, present, within⟩ := List.mem_flatMap.mp member
  exact free (keeps char within ▸ present)

theorem newline_notMem_quoted {characters : List Char} (free : '\n' ∉ characters) :
    '\n' ∉ '\'' :: characters ++ ['\''] := by
  simp [free]

theorem newline_notMem_expression {code : String} (free : '\n' ∉ code.toList) :
    '\n' ∉ (Leaf.expression code).print.toList := by
  rw [toList_print_expression]
  simp [free]

theorem newline_notMem_literal {value : String} (free : '\n' ∉ value.toList) :
    '\n' ∉ (Leaf.literal value).print.toList := by
  rw [toList_print_literal]
  refine newline_notMem_quoted (newline_notMem_flatMap free fun char member => ?_)
  unfold Text.escapeAttribute at member
  split at member
  · exact absurd member (by decide)
  · exact (List.mem_singleton.mp member).symm

theorem newline_notMem_text {value : String} (free : '\n' ∉ value.toList) :
    '\n' ∉ (Leaf.text value).print.toList := by
  rw [toList_print_text]
  refine newline_notMem_quoted (newline_notMem_flatMap free fun char member => ?_)
  unfold Text.escapeRaw at member
  split at member
  · exact absurd member (by decide)
  · exact absurd member (by decide)
  · exact absurd member (by decide)
  · exact absurd member (by decide)
  · exact (List.mem_singleton.mp member).symm

theorem newline_notMem_boolean (value : Bool) :
    '\n' ∉ (Leaf.boolean value).print.toList := by
  rw [toList_print_boolean]
  decide

/-! ### Rules of single lines -/

/-- A rule by which strings are single lines, other than texts among siblings, and names go up to
the character that ends them, carries over. -/
theorem carries_lineOutline {rule : Role → String → Prop} {stop : Char}
    (line : ∀ role string, role ≠ .content → rule role string → '\n' ∉ string.toList)
    (name : ∀ string, rule .name string → stop ∉ string.toList)
    (payload : ∀ string, rule .payload string → stop ∉ string.toList)
    (noDigit : stop.isDigit = false)
    (fixed : ∀ own ∈ [attributeScope, tagNameProp, selfClosingProp, contentProp],
      stop ∉ own.toList) :
    Carries rule (lineOutline stop) where
  prototype obeys := line .prototype _ nofun obeys
  tagPrototype := (by decide : '\n' ∉ MarkupBlocks.tagPrototype.toList)
  arrayPrototype := (by decide : '\n' ∉ MarkupBlocks.arrayPrototype.toList)
  name obeys := name _ obeys
  attributeName obeys := by
    show stop ∉ (attributeScope ++ _).toList
    rw [String.toList_append]
    exact List.not_mem_append (fixed _ (by simp)) (name _ obeys)
  payload obeys := payload _ obeys
  position number member := by
    rw [isDigit_of_mem_toString member] at noDigit
    exact absurd noDigit nofun
  tagNameProp := fixed _ (by simp)
  selfClosingProp := fixed _ (by simp)
  contentProp := fixed _ (by simp)
  code obeys := newline_notMem_expression (line .code _ nofun obeys)
  literal obeys := newline_notMem_literal (line .literal _ nofun obeys)
  tag obeys := newline_notMem_literal (line .tag _ nofun obeys)
  text obeys := newline_notMem_text (line .text _ nofun obeys)
  content _ := newline_notMem_text (Text.newline_notMem_stripLayout _)
  empty := newline_notMem_text (by decide)
  boolean := newline_notMem_boolean

/-- No string holds a line feed, except texts among siblings. -/
def oneLine : Role → String → Prop
  | .content, _ => True
  | _, string => '\n' ∉ string.toList

instance (role : Role) (string : String) : Decidable (oneLine role string) := by
  cases role <;> unfold oneLine <;> infer_instance

theorem oneLine_carries : Carries oneLine (lineOutline '\n') := by
  refine carries_lineOutline (fun role string other obeys => ?_) (fun _ obeys => obeys)
    (fun _ obeys => obeys) (by decide) (by decide)
  cases role with
  | content => exact absurd rfl other
  | _ => exact obeys

end MarkupBlocks
