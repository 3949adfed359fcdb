import Stencil.Datum.Fault
import Stencil.Datum.Plain
import Stencil.Json.Write
/-! The text that a value leaves in a page. -/
namespace Stencil.Datum

mutual

/-- The printed text of a value. Nothing is printed for null and for what is absent; a float that is
whole is printed without a fraction, the elements of a list one after the other with commas, and
a mapping or scope as compact JSON. -/
def print : Datum → Text
  | .absent | .null => []
  | .bool b => if b then "true" else "false"
  | .int n => Text.ofInt n
  | .float x => match x.toInt? with
    | some n => Text.ofInt n
    | none => x.text
  | .str s => s
  | .list items | .tuple items => Text.join "," (printItems items)
  | .mapping m => Json.write .compact (plain (.mapping m))
  | .scope layers => Json.write .compact (plain (.scope layers))
termination_by structural d => d

def printItems : List Datum → List Text
  | [] => []
  | d :: ds => print d :: printItems ds
termination_by structural ds => ds

end

mutual

/-- Whether plain data are absent or hold something that is. -/
def holdsAbsent : Datum → Bool
  | .absent => true
  | .list items | .tuple items => anyHoldsAbsent items
  | .mapping ⟨entries⟩ => anyEntryHoldsAbsent entries
  | _ => false
termination_by structural d => d

def anyHoldsAbsent : List Datum → Bool
  | [] => false
  | d :: ds => holdsAbsent d || anyHoldsAbsent ds
termination_by structural ds => ds

def anyEntryHoldsAbsent : List (Text × Datum) → Bool
  | [] => false
  | (_, d) :: es => holdsAbsent d || anyEntryHoldsAbsent es
termination_by structural es => es

end

mutual

/-- Whether a value can be printed: no mapping or scope that is printed as JSON may hold anything
absent. By itself, and as an element of a list, what is absent prints as nothing. -/
def isPrintable : Datum → Bool
  | .list items | .tuple items => arePrintable items
  | .mapping m => !(plain (.mapping m)).holdsAbsent
  | .scope layers => !(plain (.scope layers)).holdsAbsent
  | _ => true
termination_by structural d => d

def arePrintable : List Datum → Bool
  | [] => true
  | d :: ds => isPrintable d && arePrintable ds
termination_by structural ds => ds

end

/-- The printed text of a value that can be printed. -/
def printed (d : Datum) : Except ValueFault Text :=
  if d.isPrintable then .ok d.print else .error .absentInside

theorem printed_eq_ok_iff {d : Datum} {t : Text} :
    d.printed = .ok t ↔ d.isPrintable = true ∧ d.print = t := by
  unfold printed
  split <;> simp_all

end Stencil.Datum
