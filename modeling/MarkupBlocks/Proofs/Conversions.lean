/-
White space around a source makes no difference to its conversion.

A source is trimmed before the parser sees it, and what is left does not depend on blanks that are
put in front of the source or after it. So the parser is asked once, with one text, and everything
that follows is the same. A conversion adds nothing to what the parser and the renderer answer but
the report at its end: it passes their errors on, and the text and the events of the renderer.
-/

import Mathlib.Data.List.TakeWhile
import MarkupBlocks.Conversion

namespace MarkupBlocks

/-! ### Trimmed texts -/

namespace Text

/-- A text of white space only. The empty text is one. -/
def IsBlank (text : String) : Prop :=
  ∀ char ∈ text.toList, isBlank char = true

instance (text : String) : Decidable (IsBlank text) := List.decidableBAll _ _

/-- A text is a source without its longest blank start and its longest blank end: what is taken off
is blank, and what is left neither starts with a blank nor ends in one. -/
structure TrimsTo (source trimmed : String) : Prop where
  parts : ∃ before after, source = before ++ trimmed ++ after ∧ IsBlank before ∧ IsBlank after
  first : ∀ char ∈ trimmed.toList.head?, isBlank char = false
  last : ∀ char ∈ trimmed.toList.getLast?, isBlank char = false

theorem dropWhile_isBlank_of_head? {chars : List Char}
    (first : ∀ char ∈ chars.head?, isBlank char = false) : chars.dropWhile isBlank = chars := by
  cases chars with
  | nil => rfl
  | cons char rest =>
    exact List.dropWhile_cons_of_neg (Bool.eq_false_iff.mp (first char rfl))

theorem trimChars_of_ends {chars : List Char}
    (first : ∀ char ∈ chars.head?, isBlank char = false)
    (last : ∀ char ∈ chars.getLast?, isBlank char = false) : trimChars chars = chars := by
  rw [trimChars, dropWhile_isBlank_of_head? first,
    dropWhile_isBlank_of_head? (List.head?_reverse ▸ last), List.reverse_reverse]

/-- Blanks around a text are trimmed off with its own. -/
theorem trimChars_append {before chars after : List Char}
    (blankBefore : ∀ char ∈ before, isBlank char = true)
    (blankAfter : ∀ char ∈ after, isBlank char = true) :
    trimChars (before ++ chars ++ after) = trimChars chars := by
  rw [trimChars, trimChars, List.append_assoc, List.dropWhile_append_of_pos blankBefore,
    List.dropWhile_append]
  split
  · -- There is nothing but blanks, and it does not matter where they stood.
    next empty =>
    rw [List.isEmpty_iff.mp empty, List.dropWhile_eq_nil_iff.mpr blankAfter]
  · rw [List.reverse_append, List.dropWhile_append_of_pos fun char member =>
      blankAfter char (List.mem_reverse.mp member)]

theorem trim_append {before source after : String} (blankBefore : IsBlank before)
    (blankAfter : IsBlank after) : trim (before ++ source ++ after) = trim source := by
  rw [trim, String.toList_append, String.toList_append, trimChars_append blankBefore blankAfter,
    trim]

/-- A source is trimmed to what is left of it. -/
theorem trimsTo_trim (source : String) : TrimsTo source (trim source) := by
  have opened := List.takeWhile_append_dropWhile (p := isBlank) (l := source.toList)
  have closed := List.takeWhile_append_dropWhile (p := isBlank)
    (l := (source.toList.dropWhile isBlank).reverse)
  have left : (trim source).toList = trimChars source.toList := String.toList_ofList
  generalize started : source.toList.takeWhile isBlank = before at opened
  generalize ended : (source.toList.dropWhile isBlank).reverse.takeWhile isBlank = after at closed
  have remaining : source.toList.dropWhile isBlank = trimChars source.toList ++ after.reverse := by
    rw [trimChars, ← List.reverse_append, closed, List.reverse_reverse]
  refine ⟨⟨String.ofList before, String.ofList after.reverse, ?_, ?_, ?_⟩, ?_, ?_⟩
  · refine String.ext ?_
    rw [String.toList_append, String.toList_append, String.toList_ofList, String.toList_ofList,
      left, List.append_assoc, ← remaining, opened]
  · rw [IsBlank, String.toList_ofList, ← started]
    exact fun char member => List.mem_takeWhile_imp member
  · rw [IsBlank, String.toList_ofList, ← ended]
    exact fun char member => List.mem_takeWhile_imp (List.mem_reverse.mp member)
  · intro char member
    have first : char ∈ (source.toList.dropWhile isBlank).head? := by
      rw [remaining, List.head?_append, ← left, Option.mem_def.mp member]
      rfl
    exact eq_false_of_mem_head?_dropWhile first
  · intro char member
    rw [left, trimChars, List.getLast?_reverse] at member
    exact eq_false_of_mem_head?_dropWhile member

/-- A source is trimmed to one text only. -/
theorem trimsTo_iff {source trimmed : String} : TrimsTo source trimmed ↔ trimmed = trim source := by
  constructor
  · rintro ⟨⟨before, after, rfl, blankBefore, blankAfter⟩, first, last⟩
    rw [trim_append blankBefore blankAfter, trim, trimChars_of_ends first last,
      String.ofList_toList]
  · rintro rfl
    exact trimsTo_trim source

theorem trim_eq_empty {source : String} (blank : IsBlank source) : trim source = "" := by
  rw [trim, trimChars, List.dropWhile_eq_nil_iff.mpr blank]
  rfl

end Text

/-! ### What a conversion comes to -/

section Conversion

variable {ParseError : Type}

/-- What a conversion comes to, given what the parser answers to the trimmed source. An error of the
parser is passed on with no event, and a fault of the renderer with its events. When the answer
renders, the text is that of the renderer, and one report follows its events: the bytes of the
trimmed source, the nodes that the parser answered, and the bytes of the text. -/
inductive ConvertsTo (settings : Settings) (trimmed : String) :
    Except ParseError (List Node) → ConversionRun ParseError String → Prop
  | refused (error : ParseError) :
      ConvertsTo settings trimmed (.error error) ⟨[], .error (.parse error)⟩
  | faulty {nodes : List Node} {fault : Fault}
      (fails : (settings.render nodes).result = .error fault) :
      ConvertsTo settings trimmed (.ok nodes)
        ⟨(settings.render nodes).events, .error (.render fault)⟩
  | written {nodes : List Node} {text : String}
      (renders : (settings.render nodes).result = .ok text) :
      ConvertsTo settings trimmed (.ok nodes)
        ⟨(settings.render nodes).events ++
          [.converted trimmed.utf8ByteSize nodes.length text.utf8ByteSize], .ok text⟩

/-- A parser that notes each text that it is asked about. -/
def noting (answer : String → Except ParseError (List Node)) (text : String) :
    StateM (List String) (Except ParseError (List Node)) := do
  modify (· ++ [text])
  return answer text

theorem convertsTo_convertNodes (settings : Settings) (trimmed : String) (nodes : List Node) :
    ConvertsTo settings trimmed (.ok nodes : Except ParseError (List Node))
      (convertNodes settings trimmed nodes) := by
  rw [convertNodes]
  cases ends : (settings.render nodes).result with
  | error fault =>
    have failed : ((settings.render nodes).mapError
        (.render : Fault → ConversionError ParseError)).result = .error (.render fault) := by
      rw [Traced.mapError, ends]
      rfl
    rw [Traced.bind_of_error failed]
    exact .faulty ends
  | ok text =>
    have succeeded : ((settings.render nodes).mapError
        (.render : Fault → ConversionError ParseError)).result = .ok text := by
      rw [Traced.mapError, ends]
      rfl
    rw [Traced.bind_of_ok succeeded]
    exact .written ends

/-- The parser is asked once, about the trimmed source, and its answer decides the rest. -/
theorem exists_convert_noting (answer : String → Except ParseError (List Node))
    (settings : Settings) (trimmed : String) :
    ∃ run, ConvertsTo settings trimmed (answer trimmed) run ∧
      ∀ source, Text.trim source = trimmed → ∀ noted,
        (convert (noting answer) source settings).run noted = (run, noted ++ [trimmed]) := by
  cases answered : answer trimmed with
  | error error =>
    refine ⟨_, .refused error, fun source trims noted => ?_⟩
    rw [convert, trims, noting, answered]
    rfl
  | ok nodes =>
    refine ⟨_, convertsTo_convertNodes settings trimmed nodes, fun source trims noted => ?_⟩
    rw [convert, trims, noting, answered]
    rfl

/-- Blanks around a source change nothing of its conversion, whatever the parser does and whatever
effects it has. A parser that answers by the text alone is asked once: about the source without its
longest blank start and its longest blank end, of which nothing is left when the source is blank.
What it answers, and what the renderer makes of that, is what the conversion comes to. -/
theorem convert_padded (answer : String → Except ParseError (List Node)) (settings : Settings)
    {before source after : String} (blankBefore : Text.IsBlank before)
    (blankAfter : Text.IsBlank after) :
    (∃ trimmed run, (∀ text, Text.TrimsTo source text ↔ text = trimmed) ∧
      (Text.IsBlank source → trimmed = "") ∧
      ConvertsTo settings trimmed (answer trimmed) run ∧
      ∀ noted,
        (convert (noting answer) source settings).run noted = (run, noted ++ [trimmed]) ∧
        (convert (noting answer) (before ++ source ++ after) settings).run noted =
          (run, noted ++ [trimmed])) ∧
    ∀ (m : Type → Type) [Monad m] (parse : String → m (Except ParseError (List Node))),
      convert parse (before ++ source ++ after) settings = convert parse source settings := by
  have padded : Text.trim (before ++ source ++ after) = Text.trim source :=
    Text.trim_append blankBefore blankAfter
  obtain ⟨run, converts, noted⟩ := exists_convert_noting answer settings (Text.trim source)
  refine ⟨⟨Text.trim source, run, fun _ => Text.trimsTo_iff, Text.trim_eq_empty, converts,
    fun earlier => ?_⟩, fun m _ parse => ?_⟩
  · exact ⟨noted source rfl earlier, noted _ padded earlier⟩
  · rw [convert, convert, padded]

/-- An ideographic space, a next line and a line separator are taken off, and the space within the
source stays. The parser answers one text among layout, which is not a node of the document in the
end but one of the nodes that are counted. -/
theorem convert_padded_spaces :
    let before := "\u3000\n"
    let source := " a b\u0085"
    let after := "\u2028\t"
    let answer (text : String) : Except String (List Node) :=
      if text = "a b" then .ok [.leaf (.text "\n"), .leaf (.text "ä")] else .error text
    Text.IsBlank before ∧ Text.IsBlank after ∧
      ∃ run : ConversionRun String String,
        ConvertsTo {} "a b" (answer "a b") run ∧
        (convert (noting answer) source).run [] = (run, ["a b"]) ∧
        (convert (noting answer) (before ++ source ++ after)).run [] = (run, ["a b"]) ∧
        run.result = .ok "'ä'" ∧ run.events = [.converted 3 2 4] := by
  intro before source after answer
  have blankBefore : Text.IsBlank before := by decide +kernel
  have blankAfter : Text.IsBlank after := by decide +kernel
  have left : Text.trim source = "a b" := by decide +kernel
  have result : ((convert (noting answer) source).run []).1.result = .ok "'ä'" := by
    decide +kernel
  have events : ((convert (noting answer) source).run []).1.events = [.converted 3 2 4] := by
    decide +kernel
  obtain ⟨⟨trimmed, run, unique, -, converts, noted⟩, -⟩ :=
    @convert_padded _ answer {} before source after blankBefore blankAfter
  obtain rfl : "a b" = trimmed := (unique _).mp (Text.trimsTo_iff.mpr left.symm)
  obtain ⟨plain, padded⟩ := noted []
  rw [plain] at result events
  exact ⟨blankBefore, blankAfter, run, converts, plain, padded, result, events⟩

end Conversion

end MarkupBlocks
