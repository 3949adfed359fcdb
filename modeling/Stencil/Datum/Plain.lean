import Stencil.Scope
/-! Plain data: what is left of a value when scopes are flattened and tuples become lists. -/
namespace Stencil.Datum

mutual

/-- The value as plain data. -/
def plain : Datum → Datum
  | .list items | .tuple items => .list (plainItems items)
  | .mapping ⟨entries⟩ => .mapping ⟨plainEntries entries⟩
  | .scope layers => .mapping (plainLayers layers)
  | d => d
termination_by structural d => d

def plainItems : List Datum → List Datum
  | [] => []
  | d :: ds => plain d :: plainItems ds
termination_by structural ds => ds

def plainEntries : List (Text × Datum) → List (Text × Datum)
  | [] => []
  | (k, d) :: es => (k, plain d) :: plainEntries es
termination_by structural es => es

/-- The flattened layers as plain data, built like `Scope.flatten`. -/
def plainLayers : List (Layer Datum) → Mapping Datum
  | [] => .empty
  | ⟨⟨entries⟩, loop⟩ :: outer =>
    let own := (plainLayers outer).merge ⟨plainEntries entries⟩
    match loop with
    | none => own
    | some ⟨item, index, length⟩ =>
      own.merge (Loop.entriesWith ⟨item, index, length⟩ (plain item))
termination_by structural layers => layers

end

mutual

/-- A plain value holds no scope and no tuple. -/
def isPlain : Datum → Bool
  | .list items => arePlain items
  | .mapping ⟨entries⟩ => arePlainEntries entries
  | .tuple _ | .scope _ => false
  | _ => true
termination_by structural d => d

def arePlain : List Datum → Bool
  | [] => true
  | d :: ds => isPlain d && arePlain ds
termination_by structural ds => ds

def arePlainEntries : List (Text × Datum) → Bool
  | [] => true
  | (_, d) :: es => isPlain d && arePlainEntries es
termination_by structural es => es

end

end Stencil.Datum
