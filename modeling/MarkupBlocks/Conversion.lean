/-
From source text to text of the block language.

The parser is a parameter: it may have effects of its own, and its errors are its own. A
conversion takes the white space off the source, asks the parser once, renders what it
answers, and reports the sizes of what went in and came out. A failed parse is passed on as
it is.
-/

import MarkupBlocks.Rendering
import MarkupBlocks.Text.Blank

namespace MarkupBlocks

/-- Why a conversion failed. -/
inductive ConversionError (ParseError : Type) where
  /-- The parser refused the source. -/
  | parse (error : ParseError)
  /-- The parsed markup cannot be rendered. -/
  | render (fault : Fault)
deriving DecidableEq, Repr

namespace ConversionError

variable {ParseError : Type}

/-- The wording of an error, given the wording of the parser's errors. -/
def message (describe : ParseError → String) : ConversionError ParseError → String
  | parse error => describe error
  | render fault => "render fusion failed: " ++ fault.message

/-- The wording of the fault behind an error. The parser's errors stand for themselves. -/
def cause? : ConversionError ParseError → Option String
  | parse _ => none
  | render fault => some fault.message

end ConversionError

/-- A run of a conversion. -/
abbrev ConversionRun (ParseError : Type) := Traced Event (ConversionError ParseError)

variable {ParseError : Type}

/-- Renders the nodes of a trimmed source and reports the conversion. -/
def convertNodes (settings : Settings) (trimmed : String) (nodes : List Node) :
    ConversionRun ParseError String := do
  let text ← (settings.render nodes).mapError .render
  Traced.report (.converted trimmed.utf8ByteSize nodes.length text.utf8ByteSize)
  return text

/-- Converts a source with a parser. -/
def convert {m : Type → Type} [Monad m] (parse : String → m (Except ParseError (List Node)))
    (source : String) (settings : Settings := {}) : m (ConversionRun ParseError String) := do
  let trimmed := Text.trim source
  match ← parse trimmed with
  | .error error => return Traced.fail (.parse error)
  | .ok nodes => return convertNodes settings trimmed nodes

end MarkupBlocks
