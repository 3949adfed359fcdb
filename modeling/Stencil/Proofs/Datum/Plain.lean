import Stencil.Datum.Plain
import Stencil.Proofs.Scope.Flatten
/-! Plain data: what they are made of, and that they are all that is left alone when values are made
plain. -/
namespace Stencil

section mapValues

variable {α β : Type} {m n : Mapping α}

/-- A mapping with all values converted. -/
def Mapping.mapValues (f : α → β) (m : Mapping α) : Mapping β :=
  ⟨m.entries.map fun e => (e.1, f e.2)⟩

namespace Mapping

theorem keys_mapValues (f : α → β) (m : Mapping α) : (m.mapValues f).keys = m.keys := by
  simp [keys, mapValues]

theorem mapValues_insert (f : α → β) (m : Mapping α) (k : Text) (v : α) :
    (m.insert k v).mapValues f = (m.mapValues f).insert k (f v) := by
  have hput : ∀ es : List (Text × α), (put k v es).map (fun e => (e.1, f e.2)) =
      put k (f v) (es.map fun e => (e.1, f e.2)) := by
    intro es
    induction es with
    | nil => rfl
    | cons e es ih => by_cases hk : e.1 = k <;> simp [put, hk, ih]
  exact congrArg Mapping.mk (hput m.entries)

/-- Values may be converted before or after their mappings are merged. -/
theorem mapValues_merge (f : α → β) (m n : Mapping α) :
    (m.merge n).mapValues f = (m.mapValues f).merge (n.mapValues f) := by
  obtain ⟨es⟩ := n
  induction es generalizing m with
  | nil => rfl
  | cons e es ih =>
    obtain ⟨k, v⟩ := e
    rw [merge_cons, ih, mapValues_insert]
    rfl

end Mapping

end mapValues

namespace Datum

variable {d : Datum} {ds : List Datum} {es : List (Text × Datum)} {s : Scope}

/-- What holds of a value if it holds of all that the value is made of, down to the values that are
made of no others, holds of all values. -/
@[elab_as_elim]
theorem induction {P : Datum → Prop} (absent : P .absent) (null : P .null)
    (bool : ∀ b, P (.bool b)) (int : ∀ n, P (.int n)) (float : ∀ x, P (.float x))
    (str : ∀ s, P (.str s)) (list : ∀ items, (∀ d ∈ items, P d) → P (.list items))
    (tuple : ∀ items, (∀ d ∈ items, P d) → P (.tuple items))
    (mapping : ∀ m : Mapping Datum, (∀ e ∈ m.entries, P e.2) → P (.mapping m))
    (scope : ∀ s : Scope, (∀ l ∈ s, l.All P) → P (.scope s)) (d : Datum) : P d := by
  refine @Datum.rec P (fun items => ∀ d ∈ items, P d) (fun m => ∀ e ∈ m.entries, P e.2)
    (fun s => ∀ l ∈ s, l.All P) (fun es => ∀ e ∈ es, P e.2) (Layer.All P) (fun e => P e.2)
    (fun loop => ∀ l, loop = some l → P l.item) (fun l => P l.item)
    absent null bool int float str list tuple mapping scope
    nofun ?_ (fun _ h => h) nofun ?_ nofun ?_ (fun _ _ h h' => ⟨h, h'⟩) (fun _ _ h => h) nofun ?_
    (fun _ _ _ h => h) d
  · exact fun _ _ h h' => List.forall_mem_cons.2 ⟨h, h'⟩
  · exact fun _ _ h h' => List.forall_mem_cons.2 ⟨h, h'⟩
  · exact fun _ _ h h' => List.forall_mem_cons.2 ⟨h, h'⟩
  · rintro l h _ ⟨⟩
    exact h

theorem plainItems_eq_map (ds : List Datum) : plainItems ds = ds.map plain := by
  induction ds with
  | nil => rfl
  | cons d ds ih => rw [plainItems, ih, List.map_cons]

theorem plainEntries_eq_map (es : List (Text × Datum)) :
    plainEntries es = es.map fun e => (e.1, e.2.plain) := by
  induction es with
  | nil => rfl
  | cons e es ih => rw [plainEntries, ih, List.map_cons]

theorem plain_list (items : List Datum) : (list items).plain = .list (items.map plain) := by
  rw [plain, plainItems_eq_map]

theorem plain_tuple (items : List Datum) : (tuple items).plain = .list (items.map plain) := by
  rw [plain, plainItems_eq_map]

theorem plain_mapping (m : Mapping Datum) : (mapping m).plain = .mapping (m.mapValues plain) := by
  rw [plain, plainEntries_eq_map]
  rfl

theorem mapValues_entries (l : Loop Datum) :
    l.entries.mapValues plain = l.entriesWith l.item.plain := by
  unfold Loop.entries Loop.entriesWith Mapping.mapValues
  cases l.exposesItem <;> rfl

/-- The plain form of a scope is that of its names in one mapping. -/
theorem plainLayers_eq (s : Scope) : plainLayers s = s.flatten.mapValues plain := by
  induction s with
  | nil => rfl
  | cons l outer ih =>
    obtain ⟨⟨es⟩, loop⟩ := l
    have hdata : (⟨plainEntries es⟩ : Mapping Datum) = (⟨es⟩ : Mapping Datum).mapValues plain :=
      congrArg Mapping.mk (plainEntries_eq_map es)
    cases loop with
    | none => rw [plainLayers, Scope.flatten, Mapping.mapValues_merge, ih, hdata]
    | some loop =>
      rw [plainLayers, Scope.flatten, Mapping.mapValues_merge, Mapping.mapValues_merge, ih, hdata,
        mapValues_entries]

theorem plain_scope (s : Scope) : (scope s).plain = (mapping s.flatten).plain := by
  rw [plain_mapping, plain, plainLayers_eq]

theorem arePlain_iff : arePlain ds = true ↔ ∀ d ∈ ds, d.isPlain = true := by
  induction ds with
  | nil => simp [arePlain]
  | cons d ds ih => simp [arePlain, ih]

theorem arePlainEntries_iff : arePlainEntries es = true ↔ ∀ e ∈ es, e.2.isPlain = true := by
  induction es with
  | nil => simp [arePlainEntries]
  | cons e es ih => simp [arePlainEntries, ih]

theorem isPlain_mapping_plain {m : Mapping Datum} (h : ∀ e ∈ m.entries, e.2.plain.isPlain = true) :
    (mapping m).plain.isPlain = true := by
  rw [plain_mapping]
  exact arePlainEntries_iff.2 (List.forall_mem_map.2 h)

/-- Nothing but plain data comes out. -/
theorem isPlain_plain (d : Datum) : d.plain.isPlain = true := by
  induction d using Datum.induction with
  | absent | null | bool | int | float | str => rfl
  | list items ih =>
    rw [plain_list]
    exact arePlain_iff.2 (List.forall_mem_map.2 ih)
  | tuple items ih =>
    rw [plain_tuple]
    exact arePlain_iff.2 (List.forall_mem_map.2 ih)
  | mapping m ih => exact isPlain_mapping_plain ih
  | scope s ih =>
    rw [plain_scope]
    exact isPlain_mapping_plain (Scope.forall_mem_flatten (fun _ => rfl) (fun _ => rfl) ih)

/-- Plain data are left alone. -/
theorem plain_of_isPlain (h : d.isPlain = true) : d.plain = d := by
  induction d using Datum.induction with
  | absent | null | bool | int | float | str => rfl
  | list items ih =>
    rw [plain_list, List.map_congr_left fun d hd => ih d hd (arePlain_iff.1 h d hd), List.map_id']
  | tuple | scope => cases h
  | mapping m ih =>
    have hentries : m.mapValues plain = m := by
      refine congrArg Mapping.mk ?_
      have heq : ∀ e ∈ m.entries, (e.1, e.2.plain) = e := fun e he =>
        congrArg (Prod.mk e.1) (ih e he (arePlainEntries_iff.1 h e he))
      rw [List.map_congr_left heq, List.map_id']
    rw [plain_mapping, hentries]

theorem isPlain_iff : d.isPlain = true ↔ d.plain = d :=
  ⟨plain_of_isPlain, fun h => h ▸ isPlain_plain d⟩

theorem plain_plain (d : Datum) : d.plain.plain = d.plain := plain_of_isPlain (isPlain_plain d)

theorem isTruthy_plain (d : Datum) : d.plain.isTruthy = d.isTruthy := by
  cases d with
  | absent | null | bool | int | float | str | mapping | scope => rfl
  | list items | tuple items => cases items <;> rfl

end Datum
end Stencil
