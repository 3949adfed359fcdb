import Stencil.Markup.Inline
import Stencil.Text.Blank
import Stencil.Text.Pair
/-! Markup of whole texts: paragraphs and headings. -/
namespace Stencil.Markup

/-- The parts of a text between its blank lines. -/
def paragraphs (s : Text) : List Text :=
  match h : s.breakPair '\n' with
  | none => [s]
  | some (before, after) =>
    have := Text.length_lt_of_breakPair h
    before :: paragraphs after
termination_by s.length

def headingMark : Text := "## "

def subheadingMark : Text := "### "

/-- One paragraph or heading, told by the mark that it starts with. -/
def unit (lineBreak s : Text) : Text :=
  if subheadingMark.isPrefixOf s then
    element "h3" (inline lineBreak (s.drop subheadingMark.length))
  else if headingMark.isPrefixOf s then
    element "h2" (inline lineBreak (s.drop headingMark.length))
  else element "p" (inline lineBreak s)

/-- The paragraphs that are not blank, without the blanks around them, each converted by itself and
one to a line. -/
def block (lineBreak s : Text) : Text :=
  let units := ((paragraphs s).map Text.strip).filter fun p => !p.isEmpty
  Text.join "\n" (units.map (unit lineBreak))

end Stencil.Markup
