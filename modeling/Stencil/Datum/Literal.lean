import Stencil.Scope
import Stencil.Text.Quoted
import Stencil.Number.Shortest
/-! Values as they are shown in messages and inside addresses. -/
namespace Stencil

/-- Items in brackets, separated by commas. -/
def bracketed (opening closing : Text) (items : List Text) : Text :=
  opening ++ Text.join ", " items ++ closing

/-- A list of quoted names. -/
def quotedList (names : List Text) : Text := bracketed "[" "]" (names.map Text.quoted)

/-- A scope is shown by the names of its innermost layer and its depth. -/
def Scope.display (s : Scope) : Text :=
  "Context(keys=" ++ quotedList (Text.sort (Scope.ownKeys s)) ++ ", depth=" ++
    Text.ofNat (Scope.depth s) ++ ")"

namespace Datum

mutual

/-- The value as a literal: text is quoted, and a tuple of one element has a comma. -/
def literal : Datum → Text
  | .absent => "MISSING"
  | .null => "None"
  | .bool b => if b then "True" else "False"
  | .int n => Text.ofInt n
  | .float x => x.text
  | .str s => s.quoted
  | .list items => bracketed "[" "]" (literals items)
  | .tuple items => match literals items with
    | [item] => "(" ++ item ++ ",)"
    | shown => bracketed "(" ")" shown
  | .mapping ⟨entries⟩ => bracketed "\x7b" "\x7d" (entryLiterals entries)
  | .scope layers => Scope.display layers
termination_by structural d => d

def literals : List Datum → List Text
  | [] => []
  | d :: ds => literal d :: literals ds
termination_by structural ds => ds

def entryLiterals : List (Text × Datum) → List Text
  | [] => []
  | (k, d) :: es => (k.quoted ++ ": " ++ literal d) :: entryLiterals es
termination_by structural es => es

end

/-- Text stands for itself; any other value is shown as a literal. -/
def display : Datum → Text
  | .str s => s
  | d => literal d

end Datum
end Stencil
