import Stencil.Text.Printable
/-! Quoted text, as names and values are shown in messages. -/
namespace Stencil.Text

/-- The quote that surrounds a text: a single one, unless only single ones occur in it. -/
def quoteFor (s : Text) : CodePoint :=
  if s.contains '\'' && !s.contains '"' then '"' else '\''

/-- One character between quotes `q`: the quote, the backslash and the three common controls have
short escapes, and other unprintable characters are written by number. -/
def quoteChar (q c : CodePoint) : Text :=
  let n := c.toNat
  if c = q || c = '\\' then ['\\', c]
  else if c = '\n' then "\\n"
  else if c = '\r' then "\\r"
  else if c = '\t' then "\\t"
  else if isPrintable c then [c]
  else if n < 0x100 then "\\x" ++ ofHex 2 n
  else if n < 0x10000 then "\\u" ++ ofHex 4 n
  else "\\U" ++ ofHex 8 n

/-- The text between quotes, with escapes. -/
def quoted (s : Text) : Text :=
  let q := quoteFor s
  q :: s.flatMap (quoteChar q) ++ [q]

end Stencil.Text
