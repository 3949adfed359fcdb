import Stencil.Datum.Fault
import Stencil.Json.Write
/-! The settings of a render. They may have values of any kind; a render finds out that it cannot use
one when it needs it. -/
namespace Stencil

/-- How deep inclusions may nest: a number of any kind, truth values counting as 0 and 1. -/
inductive Limit where
  | int (n : Int)
  | bool (b : Bool)
  | float (x : Binary64)
deriving DecidableEq

namespace Limit

/-- The least number of nested inclusions that reaches a limit, if there is one. -/
def room? : Limit → Option Nat
  | .int n => some n.toNat
  | .bool b => some b.toNat
  | .float (.finite negative m e) =>
    if negative then some 0
    else if 0 ≤ e then some (m * Nat.pow 2 e.toNat)
    else some ((m + Nat.pow 2 (-e).toNat - 1) / Nat.pow 2 (-e).toNat)
  | .float (.infinite negative) => if negative then some 0 else none
  | .float (.nan _) => none

def datum : Limit → Datum
  | .int n => .int n
  | .bool b => .bool b
  | .float x => .float x

def text (l : Limit) : Text := l.datum.literal

end Limit

/-- What a render can be told: the indentation of JSON, the text for a line break in markup, how deep
inclusions may nest, and whether a missing inclusion is logged. `stack` is no setting but how many
inclusions spend the stack of calls: it is 1000 calls deep, with three for each. It counts only where
no limit stops inclusions. Everywhere else the stack is taken to be deep enough. -/
structure Settings where
  indent : Datum := .int 6
  lineBreak : Datum := .str "<br>"
  inclusionLimit : Datum := .int 32
  logsMissing : Datum := .bool true
  stack : Nat := 1000 / 3

namespace Settings

def default : Settings := {}

/-- The default settings changed as a mapping says; its other names say nothing. -/
def ofMapping (m : Mapping Datum) : Settings where
  indent := (m.get? "json_indent").getD default.indent
  lineBreak := (m.get? "line_break").getD default.lineBreak
  inclusionLimit := (m.get? "max_partial_depth").getD default.inclusionLimit
  logsMissing := (m.get? "warn_missing_partials").getD default.logsMissing

/-- An indentation of some spaces for each level, where a negative number counts as none. -/
def spaces (n : Int) : Json.Layout := .indented (List.replicate n.toNat ' ')

/-- The least width that no signed number of 64 bits reaches. -/
def widthBound : Int := 0x8000000000000000

/-- The layout of JSON: a number of spaces for each level, a text for each level, or one line. -/
def layout (s : Settings) : Except ValueFault Json.Layout :=
  match s.indent with
  | .null => .ok .oneLine
  | .str unit => .ok (.indented unit)
  | .bool b => .ok (spaces (if b then 1 else 0))
  | .int n => if -widthBound ≤ n ∧ n < widthBound then .ok (spaces n) else .error .indentTooWide
  | d => .error (.indent d.kindName)

/-- The document for plain data. Text looks the same in every layout, so it needs none. -/
def json (s : Settings) : Datum → Except ValueFault Text
  | .str text => .ok (Json.string text)
  | d => s.layout.map fun layout => Json.write layout d

/-- The text for a line break. -/
def lineBreakText (s : Settings) : Except ValueFault Text :=
  match s.lineBreak with
  | .str text => .ok text
  | .null => .error (.lineBreak "None")
  | d => .error (.lineBreak d.kindName)

/-- How deep inclusions may nest. -/
def limit (s : Settings) : Except ValueFault Limit :=
  match s.inclusionLimit with
  | .int n => .ok (.int n)
  | .bool b => .ok (.bool b)
  | .float x => .ok (.float x)
  | d => .error (.limit d.kindName)

/-- The number of inclusions that may nest; none where the limit cannot be used. -/
def room (s : Settings) : Nat :=
  match s.limit with
  | .ok limit => limit.room?.getD s.stack
  | .error _ => 0

end Settings
end Stencil
