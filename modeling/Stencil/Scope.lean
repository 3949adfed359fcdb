import Stencil.Datum
/-! Names and paths in a scope. -/
namespace Stencil

/-- The names that a loop defines for its body. -/
def Loop.valueKey : Text := "_value"
def Loop.indexKey : Text := "_index"
def Loop.firstKey : Text := "_first"
def Loop.lastKey : Text := "_last"
def Loop.parentKey : Text := "_parent"

namespace Loop

/-- An element that is not a mapping can be reached only by a name of its own; the fields of a
mapping are names already. -/
def exposesItem (l : Loop Datum) : Bool := !l.item.isMapping

/-- The names of the loop, `item` standing for the element, without that of the enclosing scope. -/
def entriesWith (l : Loop Datum) (item : Datum) : Mapping Datum :=
  ⟨(if l.exposesItem then [(valueKey, item)] else []) ++
    [(indexKey, .int l.index), (firstKey, .bool l.isFirst), (lastKey, .bool l.isLast)]⟩

/-- The names of the loop with their values. -/
def entries (l : Loop Datum) : Mapping Datum := l.entriesWith l.item

/-- The value of a loop's own name, with the scope around the loop. -/
def get? (l : Loop Datum) (outer : Scope) (key : Text) : Option Datum :=
  if key = indexKey then some (.int l.index)
  else if key = firstKey then some (.bool l.isFirst)
  else if key = lastKey then some (.bool l.isLast)
  else if key = parentKey then if outer.isEmpty then none else some (.scope outer)
  else if key = valueKey && l.exposesItem && !l.item.isAbsent then some l.item
  else none

end Loop

/-- A layer's value for a name: its loop's own names come before its data. -/
def Layer.get? (l : Layer Datum) (outer : Scope) (key : Text) : Option Datum :=
  (l.loop.bind fun loop => loop.get? outer key).or (l.data.get? key)

namespace Scope

/-- The scope with nothing around it. -/
def root (data : Mapping Datum) : Scope := [⟨data, none⟩]

/-- The scope that a template starts in: a scope itself, or the one that a mapping fills. -/
def ofDatum : Datum → Scope
  | .scope s => s
  | d => root d.asMapping

/-- The scope of a loop's body for one element. -/
def child (s : Scope) (item : Datum) (index length : Int) : Scope :=
  ⟨item.asMapping, some ⟨item, index, length⟩⟩ :: s

/-- The value of a name in the innermost layer that has one. -/
def lookup (key : Text) : Scope → Datum
  | [] => .absent
  | l :: outer => (l.get? outer key).getD (lookup key outer)

/-- All names of the scope in one mapping; inner layers win. -/
def flatten : Scope → Mapping Datum
  | [] => .empty
  | l :: outer =>
    let own := (flatten outer).merge l.data
    match l.loop with
    | none => own
    | some loop => own.merge loop.entries

/-- The number of layers around the innermost. -/
def depth (s : Scope) : Nat := s.length - 1

/-- The names in the data of the innermost layer. -/
def ownKeys : Scope → List Text
  | [] => []
  | l :: _ => l.data.keys

end Scope

/-- One step of a path into a value: a name of a scope or mapping, or a position in a list. Any numeral
is a position, however many digits it has. -/
def Datum.step : Datum → Text → Datum
  | .scope s, name => Scope.lookup name s
  | .mapping m, name => (m.get? name).getD .absent
  | .list items, name | .tuple items, name =>
    if !name.isEmpty && name.all Text.isAsciiDigit then
      items[Text.natOfDigits name]?.getD .absent
    else .absent
  | _, _ => .absent

/-- The value of a dotted path: its first name is looked up in the scope, and each other one is a
step into the value so far. -/
def Scope.resolve (s : Scope) (path : Text) : Datum :=
  if path.isEmpty then .absent
  else match path.splitOn '.' with
    | [] => .absent
    | first :: rest => rest.foldl Datum.step (s.lookup first)

/-- Mappings merged from left to right. -/
def mergeLayers (layers : List (Mapping Datum)) : Mapping Datum :=
  layers.foldl Mapping.merge .empty

end Stencil
