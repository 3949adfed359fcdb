import Stencil.Proofs.Datum.Printable
/-! Values without floats. As plain data they can be written in a document without any loss. -/
namespace Stencil

namespace Datum

/-- Plain data without floats and without anything absent, in whose mappings no name stands twice. -/
inductive Exact : Datum → Prop where
  | null : Exact .null
  | bool (b : Bool) : Exact (.bool b)
  | int (n : Int) : Exact (.int n)
  | str (s : Text) : Exact (.str s)
  | list {items : List Datum} (elements : ∀ d ∈ items, Exact d) : Exact (.list items)
  | mapping {m : Mapping Datum} (distinct : m.Distinct) (values : ∀ e ∈ m.entries, Exact e.2) :
    Exact (.mapping m)

/-- The integers in plain data, at any depth. -/
inductive HasInteger : Datum → Int → Prop where
  | here {n : Int} : HasInteger (.int n) n
  | list {items : List Datum} {d : Datum} {n : Int} (element : d ∈ items) (inside : HasInteger d n) :
    HasInteger (.list items) n
  | mapping {m : Mapping Datum} {e : Text × Datum} {n : Int} (entry : e ∈ m.entries)
    (inside : HasInteger e.2 n) : HasInteger (.mapping m) n

/-- Values of all kinds but floats, with nothing absent, at any depth and in the layers of scopes. -/
inductive FloatFree : Datum → Prop where
  | null : FloatFree .null
  | bool (b : Bool) : FloatFree (.bool b)
  | int (n : Int) : FloatFree (.int n)
  | str (s : Text) : FloatFree (.str s)
  | list {items : List Datum} (elements : ∀ d ∈ items, FloatFree d) : FloatFree (.list items)
  | tuple {items : List Datum} (elements : ∀ d ∈ items, FloatFree d) : FloatFree (.tuple items)
  | mapping {m : Mapping Datum} (distinct : m.Distinct) (values : ∀ e ∈ m.entries, FloatFree e.2) :
    FloatFree (.mapping m)
  | scope {s : Scope} (values : ∀ l ∈ s, ∀ e ∈ l.data.entries, FloatFree e.2)
      (items : ∀ l ∈ s, ∀ loop, l.loop = some loop → FloatFree loop.item) : FloatFree (.scope s)

variable {d : Datum} {s : Scope} {es : List (Text × Datum)}

theorem exact_list {items : List Datum} (h : ∀ d ∈ items, d.plain.Exact) :
    (list items).plain.Exact := by
  rw [plain_list]
  exact .list (List.forall_mem_map.2 h)

theorem exact_mapping {m : Mapping Datum} (hm : m.Distinct) (h : ∀ e ∈ m.entries, e.2.plain.Exact) :
    (mapping m).plain.Exact := by
  rw [plain_mapping]
  refine .mapping ?_ (List.forall_mem_map.2 h)
  rw [Mapping.Distinct, Mapping.keys_mapValues]
  exact hm

theorem exact_scope (h : ∀ l ∈ s, l.All fun d => d.plain.Exact) : (scope s).plain.Exact := by
  rw [plain_scope]
  exact exact_mapping (Scope.distinct_flatten s) (Scope.forall_mem_flatten .int .bool h)

theorem FloatFree.exact_plain (h : d.FloatFree) : d.plain.Exact := by
  induction h with
  | null => exact .null
  | bool b => exact .bool b
  | int n => exact .int n
  | str s => exact .str s
  | list _ ih | tuple _ ih => exact exact_list ih
  | mapping distinct _ ih => exact exact_mapping distinct ih
  | scope _ _ ihvalues ihitems =>
    exact exact_scope fun l hl => ⟨ihvalues l hl, ihitems l hl⟩

theorem Exact.holdsAbsent (h : d.Exact) : d.holdsAbsent = false := by
  induction h with
  | null | bool | int | str => rfl
  | list _ ih => exact anyHoldsAbsent_eq_false_iff.2 ih
  | @mapping m _ _ ih => exact anyEntryHoldsAbsent_eq_false_iff.2 ih

theorem FloatFree.ne_absent (h : d.FloatFree) : d ≠ .absent := by
  rintro rfl
  cases h

end Datum
end Stencil
