import Stencil.Text.Blank
/-! What the parts of a template ask for, as far as each part tells by itself. -/
namespace Stencil

/-- A part of a template that stands alone: text to copy, or a tag that is replaced. -/
inductive Leaf where
  | text (content : Text)
  | value (path : Text)
  | inclusion (name : Text)
  | markdown (inline : Bool) (path : Text)
  | json (path : Text)
deriving DecidableEq

/-- A part of a template: a leaf, a tag that opens, divides or closes a block, or its end. -/
inductive Lexeme where
  | leaf (leaf : Leaf)
  | eachOpen (path : Text)
  | eachClose
  | ifOpen (path : Text)
  | otherwise
  | ifClose
  | finish
deriving DecidableEq

/-- The braces around a tag. -/
def openBraces : Text := "\x7b\x7b"
def closeBraces : Text := "\x7d\x7d"

/-- A tag with the given content. -/
def tagOf (content : Text) : Text := openBraces ++ content ++ closeBraces

namespace Lexeme

/-- The words of the tags that open and close blocks. -/
def eachWord : Text := "#each"
def ifWord : Text := "#if"
def eachCloseWord : Text := "/each"
def ifCloseWord : Text := "/if"

/-- The text or the argument that a lexeme carries. -/
def argument : Lexeme → Text
  | .leaf (.text s) | .leaf (.value s) | .leaf (.inclusion s) | .leaf (.markdown _ s)
  | .leaf (.json s) | .eachOpen s | .ifOpen s => s
  | .eachClose | .otherwise | .ifClose | .finish => []

/-- The name of the kind of lexeme. -/
def kindName : Lexeme → Text
  | .leaf (.text _) => "TEXT"
  | .leaf (.value _) => "VARIABLE"
  | .leaf (.inclusion _) => "PARTIAL"
  | .leaf (.markdown false _) => "MARKDOWN_BLOCK"
  | .leaf (.markdown true _) => "MARKDOWN_INLINE"
  | .leaf (.json _) => "JSON"
  | .eachOpen _ => "EACH_OPEN"
  | .eachClose => "EACH_CLOSE"
  | .ifOpen _ => "IF_OPEN"
  | .otherwise => "ELSE"
  | .ifClose => "IF_CLOSE"
  | .finish => "EOF"

/-- The first word of a tag and what follows it. The word ends at the first space; in a tag without
one, at the first blank of another kind. -/
def splitWord (content : Text) : Text × Text :=
  match Text.splitWhile (· ≠ ' ') content with
  | (word, _ :: rest) => (word, Text.strip rest)
  | (_, []) =>
    let (word, rest) := Text.splitWhile (!Text.isBlank ·) content
    (word, Text.strip rest)

/-- The lexeme of a tag that begins with a word and goes on with an argument. Words of leaves count
as such only with an argument. -/
def ofWord? (word argument : Text) : Option Lexeme :=
  if word = eachWord then some (.eachOpen argument)
  else if word = ifWord then some (.ifOpen argument)
  else if word = eachCloseWord then some .eachClose
  else if word = ifCloseWord then some .ifClose
  else if argument.isEmpty then none
  else if word = "md" then some (.leaf (.markdown false argument))
  else if word = "mdi" then some (.leaf (.markdown true argument))
  else if word = "json" then some (.leaf (.json argument))
  else none

/-- The lexeme of a tag, from its content without the blanks around it. What is nothing else is the
path of a value. -/
def ofContent (content : Text) : Lexeme :=
  match content with
  | '>' :: name => .leaf (.inclusion (Text.strip name))
  | _ =>
    let (word, argument) := splitWord content
    match ofWord? word argument with
    | some lexeme => lexeme
    | none => if content = "else" then .otherwise else .leaf (.value content)

/-- The mark of a tag that needs an argument and has none. -/
def bareMark? : Lexeme → Option Text
  | .eachOpen [] => some eachWord
  | .ifOpen [] => some ifWord
  | .leaf (.inclusion []) => some ">"
  | _ => none

end Lexeme
end Stencil
