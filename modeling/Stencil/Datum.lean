import Stencil.Mapping
import Stencil.Number.Binary64
/-! The values that templates are filled with, and the scopes in which paths are looked up. -/
namespace Stencil

/-- One pass of a loop: the current element, its index, and the number of elements. -/
structure Loop (α : Type) where
  item : α
  index : Int
  length : Int

namespace Loop

variable {α : Type}

def isFirst (l : Loop α) : Bool := l.index = 0

def isLast (l : Loop α) : Bool := l.index = l.length - 1

end Loop

/-- A layer of a scope: the names it defines, and the loop whose body it belongs to, if any. -/
structure Layer (α : Type) where
  data : Mapping α
  loop : Option (Loop α)

/-- A value. `absent` is what a path that leads nowhere resolves to; `null` is a value like others.
A scope, which is reached through the name of the enclosing one, is a list of layers, the innermost
first. -/
inductive Datum where
  | absent
  | null
  | bool (b : Bool)
  | int (n : Int)
  | float (x : Binary64)
  | str (s : Text)
  | list (items : List Datum)
  | tuple (items : List Datum)
  | mapping (m : Mapping Datum)
  | scope (layers : List (Layer Datum))

instance : Inhabited Datum := ⟨.absent⟩

/-- Where paths are looked up: layers, the innermost first. -/
abbrev Scope := List (Layer Datum)

namespace Datum

def isAbsent : Datum → Bool
  | .absent => true
  | _ => false

def isMapping : Datum → Bool
  | .mapping _ => true
  | _ => false

/-- The mapping that a value is, and the empty one for any other. -/
def asMapping : Datum → Mapping Datum
  | .mapping m => m
  | _ => .empty

/-- The elements of a list or tuple. -/
def items? : Datum → Option (List Datum)
  | .list items | .tuple items => some items
  | _ => none

/-- The word for the kind of a value in messages. -/
def kindName : Datum → Text
  | .absent => "_Missing"
  | .null => "NoneType"
  | .bool _ => "bool"
  | .int _ => "int"
  | .float _ => "float"
  | .str _ => "str"
  | .list _ => "list"
  | .tuple _ => "tuple"
  | .mapping _ => "dict"
  | .scope _ => "Context"

/-- Whether a condition on the value holds. Mappings and scopes always count as true, even empty
ones; a list only if it has elements; a number unless it is zero or NaN. -/
def isTruthy : Datum → Bool
  | .absent | .null => false
  | .bool b => b
  | .int n => n != 0
  | .float x => !x.isZero && !x.isNaN
  | .str s => !s.isEmpty
  | .list items | .tuple items => !items.isEmpty
  | .mapping _ | .scope _ => true

/-- Whether a record's field counts as left out. Unlike in a condition, an empty mapping does and
NaN does not. -/
def isVoid : Datum → Bool
  | .absent | .null => true
  | .bool b => !b
  | .int n => n == 0
  | .float x => x.isZero
  | .str s => s.isEmpty
  | .list items | .tuple items => items.isEmpty
  | .mapping m => m.entries.isEmpty
  | .scope _ => false

/-- The value, or `default` if it counts as left out. -/
def orElse (d default : Datum) : Datum := if d.isVoid then default else d

/-- A field of a record; one that is not there is null. -/
def field (m : Mapping Datum) (name : Text) : Datum := (m.get? name).getD .null

end Datum
end Stencil
