import Stencil.Datum.Literal
/-! Plain data written as JSON. -/
namespace Stencil.Json

/-- How a document is laid out: in one line without or with blanks after the separators, or with
one item a line, indented by `unit` for each level. -/
inductive Layout where
  | compact
  | oneLine
  | indented (unit : Text)
deriving DecidableEq

/-- A line break and the indentation of a level, where the layout has lines. -/
def Layout.newline (layout : Layout) (level : Nat) : Text :=
  match layout with
  | .indented unit => '\n' :: (List.replicate level unit).flatten
  | _ => []

/-- What stands between two items. -/
def Layout.comma (layout : Layout) : Text :=
  match layout with
  | .oneLine => ", "
  | _ => ","

/-- What stands between a key and its value. -/
def Layout.colon (layout : Layout) : Text :=
  match layout with
  | .compact => ":"
  | _ => ": "

/-- One character of a string: quote, backslash and controls are escaped, all else is kept. -/
def escapeChar (c : CodePoint) : Text :=
  if c = '"' then "\\\""
  else if c = '\\' then "\\\\"
  else if c = '\n' then "\\n"
  else if c = '\r' then "\\r"
  else if c = '\t' then "\\t"
  else if c.toNat = 0x0c then "\\f"
  else if c.toNat = 0x08 then "\\b"
  else if c.toNat < 0x20 then "\\u" ++ Text.ofHex 4 c.toNat
  else [c]

def string (s : Text) : Text := ↑ '"' :: s.flatMap escapeChar ++ (['"'] : Text)

/-- A number; the ones that are not finite are written by name. -/
def number : Binary64 → Text
  | .nan _ => "NaN"
  | .infinite negative => if negative then "-Infinity" else "Infinity"
  | x => x.text

/-- The items of an array or object at a level, between its brackets. -/
def enclose (layout : Layout) (level : Nat) (opening closing : CodePoint) (items : List Text) : Text :=
  if items.isEmpty then [opening, closing]
  else
    opening :: layout.newline (level + 1) ++
      Text.join (layout.comma ++ layout.newline (level + 1)) items ++
      layout.newline level ++ [closing]

mutual

/-- A value at a level of the document. What has no form in JSON is written as the string that
shows it. -/
def writeAt (layout : Layout) (level : Nat) : Datum → Text
  | .absent => string (Datum.literal .absent)
  | .null => "null"
  | .bool b => if b then "true" else "false"
  | .int n => Text.ofInt n
  | .float x => number x
  | .str s => string s
  | .list items | .tuple items => enclose layout level '[' ']' (writeItems layout (level + 1) items)
  | .mapping ⟨entries⟩ =>
    enclose layout level '\x7b' '\x7d' (writeEntries layout (level + 1) entries)
  | .scope layers => string (Scope.display layers)
termination_by structural d => d

def writeItems (layout : Layout) (level : Nat) : List Datum → List Text
  | [] => []
  | d :: ds => writeAt layout level d :: writeItems layout level ds
termination_by structural ds => ds

def writeEntries (layout : Layout) (level : Nat) : List (Text × Datum) → List Text
  | [] => []
  | (k, d) :: es =>
    (string k ++ layout.colon ++ writeAt layout level d) :: writeEntries layout level es
termination_by structural es => es

end

/-- The document for plain data. -/
def write (layout : Layout) (d : Datum) : Text := writeAt layout 0 d

end Stencil.Json
