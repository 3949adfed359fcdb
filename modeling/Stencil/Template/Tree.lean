import Stencil.Position
import Stencil.Template.Lexeme
/-! Parsed templates. -/
namespace Stencil

/-- A part of a template with its place in the source: a leaf, or a block with its bodies. A
condition without a second body differs from one whose second body is empty. -/
inductive Node where
  | leaf (location : Location) (leaf : Leaf)
  | each (location : Location) (path : Text) (body : List Node)
  | cond (location : Location) (path : Text) (body : List Node) (elseBody : Option (List Node))

/-- A parsed template: its name, the place of its first token, and its parts. -/
structure Template where
  file : Option Text
  location : Location
  nodes : List Node

end Stencil
