import Stencil.Position
import Stencil.Template.Lexeme
/-! What can be wrong with a template, and how it is reported. -/
namespace Stencil

/-- A fault in the tags of a template. Tags are quoted as they stand in the source; `closing` is the
word that would have closed the block. -/
inductive SyntaxError.Cause where
  | unterminatedTag
  | bareTag (mark : Text)
  | unterminatedBlock (opener closing : Text)
  | duplicateElse (opener : Text)
  | elseInLoop (opener : Text)
  | mismatchedClose (tag closing opener : Text) (openedAt : Position)
  | strayElse
  | strayClose (tag : Text)
deriving DecidableEq

/-- A fault, with the place of the tag that shows it and the name of the source. -/
structure SyntaxError where
  cause : SyntaxError.Cause
  position : Position
  file : Option Text
deriving DecidableEq

namespace SyntaxError

def Cause.message : Cause → Text
  | .unterminatedTag =>
    "Unterminated tag: '" ++ openBraces ++ "' has no closing '" ++ closeBraces ++ "'"
  | .bareTag mark => "Tag '" ++ tagOf mark ++ "' is missing its argument"
  | .unterminatedBlock opener closing =>
    "Unterminated block " ++ opener ++ ": missing " ++ tagOf closing
  | .duplicateElse opener => "Duplicate " ++ tagOf "else" ++ " in " ++ opener
  | .elseInLoop opener =>
    tagOf "else" ++ " inside " ++ opener ++ " does not belong to an " ++ tagOf Lexeme.ifWord ++ " block"
  | .mismatchedClose tag closing opener openedAt =>
    "Mismatched " ++ tag ++ ": expected " ++ tagOf closing ++ " for " ++ opener ++
      " opened at " ++ Text.ofNat openedAt.line ++ ":" ++ Text.ofNat openedAt.column
  | .strayElse => tagOf "else" ++ " outside of an " ++ tagOf Lexeme.ifWord ++ " block"
  | .strayClose tag => "Unexpected " ++ tag ++ " with no open block"

/-- A message after the place it is about, as far as that is known: a file, a line, and in a line a
column. Colons at the end of the place are dropped. -/
def located (file : Option Text) (line column : Option Int) (message : Text) : Text :=
  let inFile : Text := match file with
    | none | some [] => []
    | some name => name ++ ":"
  let inLine : Text := match line with
    | none => []
    | some l => Text.ofInt l ++ ":" ++ match column with
      | none => []
      | some c => Text.ofInt c ++ ":"
  let place := inFile ++ inLine
  if place.isEmpty then message
  else (place.reverse.dropWhile (· = ↑ ':')).reverse ++ " " ++ message

def message (e : SyntaxError) : Text := e.cause.message

/-- The message with its place. -/
def text (e : SyntaxError) : Text :=
  located e.file (some e.position.line) (some e.position.column) e.message

end SyntaxError
end Stencil
