import Stencil.Text.Quoted
import Stencil.Template.Piece
import Stencil.Template.SyntaxError
/-! Tokens: the parts of a source with their places. -/
namespace Stencil

/-- A part of a source: what it asks for, how it is written, and where. -/
structure Token where
  lexeme : Lexeme
  raw : Text
  file : Option Text
  start : Position
deriving DecidableEq

namespace Token

/-- The offset after the token. -/
def stop (t : Token) : Nat := t.start.offset + t.raw.length

def location (t : Token) : Location := ⟨t.file, t.start, t.stop⟩

/-- A fault at the token. -/
def fault (t : Token) (cause : SyntaxError.Cause) : SyntaxError := ⟨cause, t.start, t.file⟩

/-- A text of more than twenty characters is shown by its first seventeen. -/
def shorten (s : Text) : Text := if 20 < s.length then s.take 17 ++ "..." else s

/-- The token in one line, for tracing. -/
def display (t : Token) : Text :=
  "Token(" ++ t.lexeme.kindName ++ ", " ++ (shorten t.lexeme.argument).quoted ++ ", @" ++
    Text.ofNat t.start.offset ++ ")"

end Token

/-- The tokens of a source up to its end or to the first fault. At the end stands a token of its
own, which is no part of the source. -/
structure Scan where
  tokens : List Token
  ending : Except SyntaxError Token

namespace Scan

/-- A token in front of a scan. -/
def cons (t : Token) (s : Scan) : Scan := { s with tokens := t :: s.tokens }

/-- The tokens of some pieces, the first of which stands at `p`. -/
def ofPieces (file : Option Text) (p : Position) : List Piece → Scan
  | [] => ⟨[], .ok ⟨.finish, [], file, p⟩⟩
  | piece :: rest =>
    let token (lexeme : Lexeme) : Token := ⟨lexeme, piece.raw, file, p⟩
    let others := ofPieces file (p.advance piece.raw) rest
    match piece with
    | .text content => others.cons (token (.leaf (.text content)))
    | .unclosed _ => ⟨[], .error ⟨.unterminatedTag, p, file⟩⟩
    | .tag content =>
      let lexeme := Lexeme.ofContent content.strip
      match lexeme.bareMark? with
      | some mark => ⟨[], .error ⟨.bareTag mark, p, file⟩⟩
      | none => others.cons (token lexeme)

/-- The tokens of a source, whose name is `file`. -/
def ofSource (file : Option Text) (source : Text) : Scan :=
  ofPieces file .start (Piece.divide source)

/-- The tokens with that of the end, if the end was reached. -/
def all (s : Scan) : List Token :=
  match s.ending with
  | .ok last => s.tokens ++ [last]
  | .error _ => s.tokens

end Scan
end Stencil
