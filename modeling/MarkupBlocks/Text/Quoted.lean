/-
Literals between single quotes.

There are two ways to write one. An attribute value is the author's own literal, so only the
quote that would end it is escaped and any backslash is taken as the author wrote it. Raw
text is not written by anyone as a literal, so every character that means something inside a
literal is escaped.
-/

namespace MarkupBlocks.Text

/-- The literal whose content is the text with each character replaced by its escape. -/
def quoted (escape : Char → List Char) (text : String) : String :=
  String.ofList ('\'' :: text.toList.flatMap escape ++ ['\''])

/-- The escape of a character of an attribute value: a single quote takes a backslash. -/
def escapeAttribute : Char → List Char
  | '\'' => ['\\', '\'']
  | char => [char]

/-- The escape of a character of raw text: both quotes and the backslash take a backslash,
and NUL is a backslash and the digit zero. -/
def escapeRaw : Char → List Char
  | '\'' => ['\\', '\'']
  | '"' => ['\\', '"']
  | '\\' => ['\\', '\\']
  | '\x00' => ['\\', '0']
  | char => [char]

/-- An attribute value as a literal. -/
def quoteAttribute (value : String) : String := quoted escapeAttribute value

/-- A raw text as a literal. -/
def quoteRaw (text : String) : String := quoted escapeRaw text

end MarkupBlocks.Text
