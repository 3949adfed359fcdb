import Stencil.Datum
/-! Equality of values as far as their content goes. -/
namespace Stencil.Datum

/-- The integer a value is worth where it is compared with numbers; truth values count as 0 and
1, and a float counts if it is whole. -/
def wholeNumber? : Datum → Option Int
  | .bool b => some (if b then 1 else 0)
  | .int n => some n
  | .float x => x.toInt?
  | _ => none

/-- Numbers and truth values are the same if they are worth the same. -/
def sameNumber (d e : Datum) : Bool :=
  match d, e with
  | .float x, .float y => x.eqValue y
  | _, _ => match wholeNumber? d, wholeNumber? e with
    | some m, some n => m = n
    | _, _ => false

/-- Whether both values are the NaN of documents. It equals nothing, but lists and mappings that hold
it at the same place are still the same. -/
def areWrittenNaN : Datum → Datum → Bool
  | .float (.nan true), .float (.nan true) => true
  | _, _ => false

mutual

/-- Whether two values have the same content. The order of a mapping's entries does not matter, a
list differs from a tuple, and a scope is the same as nothing. -/
def same : Datum → Datum → Bool
  | .absent, .absent | .null, .null => true
  | .str s, .str t => s = t
  | .list ds, .list es | .tuple ds, .tuple es => sameItems ds es
  | .mapping ⟨ds⟩, .mapping ⟨es⟩ => ds.length = es.length && sameEntries ds es
  | .bool b, e => sameNumber (.bool b) e
  | .int n, e => sameNumber (.int n) e
  | .float x, e => sameNumber (.float x) e
  | _, _ => false
termination_by structural d => d

def sameItems : List Datum → List Datum → Bool
  | [], [] => true
  | d :: ds, e :: es => (areWrittenNaN d e || same d e) && sameItems ds es
  | _, _ => false
termination_by structural ds => ds

/-- Each of the first entries has its value under its key among the others. -/
def sameEntries : List (Text × Datum) → List (Text × Datum) → Bool
  | [], _ => true
  | (k, d) :: ds, es =>
    (match Mapping.find? k es with
      | some e => areWrittenNaN d e || same d e
      | none => false) && sameEntries ds es
termination_by structural ds => ds

end

end Stencil.Datum
