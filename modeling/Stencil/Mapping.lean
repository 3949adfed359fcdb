import Stencil.Text
/-! Mappings from names to values that remember the order in which the names came. -/
namespace Stencil

/-- A mapping lists its entries in order. `Mapping.insert` never adds a name twice; where a name does
stand twice, the first entry counts. -/
structure Mapping (α : Type) where
  entries : List (Text × α)
deriving DecidableEq

namespace Mapping

variable {α : Type} {m n : Mapping α} {k l : Text} {v w : α} {es : List (Text × α)}

def empty : Mapping α := ⟨[]⟩

instance : Inhabited (Mapping α) := ⟨empty⟩

def keys (m : Mapping α) : List Text := m.entries.map Prod.fst

/-- The value of the first entry for a key. -/
def find? (key : Text) : List (Text × α) → Option α
  | [] => none
  | (k, v) :: es => if k = key then some v else find? key es

def get? (m : Mapping α) (key : Text) : Option α := find? key m.entries

def contains (m : Mapping α) (key : Text) : Bool := (m.get? key).isSome

/-- The entries with the value of `key` replaced where it stands, or added at the end. -/
def put (key : Text) (value : α) : List (Text × α) → List (Text × α)
  | [] => [(key, value)]
  | (k, v) :: es => if k = key then (k, value) :: es else (k, v) :: put key value es

/-- A key keeps its place when its value changes; a new one comes last. -/
def insert (m : Mapping α) (key : Text) (value : α) : Mapping α := ⟨put key value m.entries⟩

/-- All entries of `n` inserted into `m` in order. -/
def merge (m n : Mapping α) : Mapping α :=
  n.entries.foldl (fun m e => m.insert e.1 e.2) m

/-- The mapping that arises when the entries are inserted one after the other. -/
def ofList (es : List (Text × α)) : Mapping α := merge empty ⟨es⟩

/-- No key stands twice. -/
def Distinct (m : Mapping α) : Prop := m.keys.Nodup

@[simp] theorem get?_empty (k : Text) : (empty : Mapping α).get? k = none := rfl

@[simp] theorem merge_empty (m : Mapping α) : m.merge empty = m := rfl

theorem find?_put_self (k : Text) (v : α) (es : List (Text × α)) :
    find? k (put k v es) = some v := by
  induction es with
  | nil => simp [put, find?]
  | cons e es ih =>
    by_cases h : e.1 = k <;> simp [put, find?, h, ih]

theorem find?_put_of_ne (h : l ≠ k) (v : α) (es : List (Text × α)) :
    find? l (put k v es) = find? l es := by
  induction es with
  | nil => simp [put, find?, Ne.symm h]
  | cons e es ih =>
    by_cases hk : e.1 = k
    · simp [put, find?, hk, Ne.symm h]
    · simp [put, find?, hk, ih]

@[simp] theorem get?_insert_self (m : Mapping α) (k : Text) (v : α) :
    (m.insert k v).get? k = some v := find?_put_self k v m.entries

theorem get?_insert_of_ne (h : l ≠ k) (m : Mapping α) (v : α) :
    (m.insert k v).get? l = m.get? l := find?_put_of_ne h v m.entries

theorem find?_eq_none_iff : find? k es = none ↔ k ∉ es.map Prod.fst := by
  induction es with
  | nil => simp [find?]
  | cons e es ih =>
    by_cases h : e.1 = k
    · simp [find?, h]
    · simp [find?, h, ih, Ne.symm h]

theorem get?_eq_none_iff : m.get? k = none ↔ k ∉ m.keys := find?_eq_none_iff

theorem map_fst_put (k : Text) (v : α) (es : List (Text × α)) :
    (put k v es).map Prod.fst =
      if k ∈ es.map Prod.fst then es.map Prod.fst else es.map Prod.fst ++ [k] := by
  induction es with
  | nil => simp [put]
  | cons e es ih =>
    by_cases h : e.1 = k
    · simp [put, h]
    · by_cases hk : k ∈ es.map Prod.fst <;> simp_all [put, Ne.symm h]

/-- Inserting a key that is there keeps the keys; a new one is added at the end. -/
theorem keys_insert (m : Mapping α) (k : Text) (v : α) :
    (m.insert k v).keys = if k ∈ m.keys then m.keys else m.keys ++ [k] :=
  map_fst_put k v m.entries

theorem distinct_empty : (empty : Mapping α).Distinct := List.nodup_nil

theorem distinct_insert (h : m.Distinct) (k : Text) (v : α) : (m.insert k v).Distinct := by
  unfold Distinct at *
  rw [keys_insert]
  split
  · exact h
  · next hk =>
    rw [List.nodup_append]
    exact ⟨h, by simp, by rintro a ha b hb rfl; exact hk (by simp_all)⟩

theorem distinct_merge (h : m.Distinct) (n : Mapping α) : (m.merge n).Distinct := by
  unfold merge
  induction n.entries generalizing m with
  | nil => exact h
  | cons e es ih => exact ih (distinct_insert h e.1 e.2)

theorem distinct_ofList (es : List (Text × α)) : (ofList es).Distinct :=
  distinct_merge distinct_empty _

theorem merge_cons (m : Mapping α) (k : Text) (v : α) (es : List (Text × α)) :
    m.merge ⟨(k, v) :: es⟩ = (m.insert k v).merge ⟨es⟩ := rfl

end Mapping
end Stencil
