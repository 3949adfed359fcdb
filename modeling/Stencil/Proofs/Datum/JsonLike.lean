import Stencil.Scope
/-! Values and scopes as data files fill them, and what paths find in them. -/
namespace Stencil

namespace Mapping

variable {α : Type} {m : Mapping α} {k : Text} {v : α} {es : List (Text × α)}

instance (m : Mapping α) : Decidable m.Distinct := inferInstanceAs (Decidable m.keys.Nodup)

theorem mem_of_find? (h : find? k es = some v) : (k, v) ∈ es := by
  induction es with
  | nil => cases h
  | cons e es ih =>
    by_cases hk : e.1 = k
    · simp only [find?, hk, if_true] at h
      obtain rfl := Option.some.inj h
      obtain rfl := hk
      exact List.mem_cons_self
    · simp only [find?, hk, if_false] at h
      exact List.mem_cons_of_mem _ (ih h)

theorem mem_of_get? (h : m.get? k = some v) : (k, v) ∈ m.entries := mem_of_find? h

end Mapping

namespace Datum

/-- A value that holds nothing absent and no scope, and in whose mappings no name stands twice. -/
inductive JsonLike : Datum → Prop where
  | null : JsonLike .null
  | bool (b : Bool) : JsonLike (.bool b)
  | int (n : Int) : JsonLike (.int n)
  | float (x : Binary64) : JsonLike (.float x)
  | str (s : Text) : JsonLike (.str s)
  | list {items : List Datum} (elements : ∀ d ∈ items, JsonLike d) : JsonLike (.list items)
  | tuple {items : List Datum} (elements : ∀ d ∈ items, JsonLike d) : JsonLike (.tuple items)
  | mapping {m : Mapping Datum} (distinct : m.Distinct) (values : ∀ e ∈ m.entries, JsonLike e.2) :
    JsonLike (.mapping m)

variable {d : Datum} {m : Mapping Datum} {k : Text}

theorem JsonLike.ne_absent (h : d.JsonLike) : d ≠ .absent := by
  rintro rfl
  cases h

theorem JsonLike.of_mem {e : Text × Datum} (h : (Datum.mapping m).JsonLike) (he : e ∈ m.entries) :
    e.2.JsonLike := by
  cases h with
  | mapping _ values => exact values e he

theorem JsonLike.get? (h : (Datum.mapping m).JsonLike) (hd : m.get? k = some d) : d.JsonLike :=
  h.of_mem (Mapping.mem_of_get? hd)

theorem JsonLike.distinct (h : (Datum.mapping m).JsonLike) : m.Distinct := by
  cases h with
  | mapping distinct _ => exact distinct

theorem jsonLike_empty : (Datum.mapping .empty).JsonLike :=
  .mapping Mapping.distinct_empty (by rintro e ⟨⟩)

theorem JsonLike.asMapping (h : d.JsonLike) : (Datum.mapping d.asMapping).JsonLike := by
  cases d with
  | mapping m => exact h
  | absent | null | bool | int | float | str | list | tuple | scope => exact jsonLike_empty

theorem JsonLike.of_items? {items : List Datum} (h : d.JsonLike) (hd : d.items? = some items) :
    ∀ item ∈ items, item.JsonLike := by
  cases h with
  | list elements | tuple elements =>
    obtain rfl := Option.some.inj hd
    exact elements
  | null | bool | int | float | str | mapping => cases hd

/-- A step into such a value leads to another one, or nowhere. -/
theorem JsonLike.step (h : d.JsonLike) (name : Text) :
    d.step name = .absent ∨ (d.step name).JsonLike := by
  cases h with
  | null | bool | int | float | str => exact .inl rfl
  | @mapping m distinct values =>
    cases hd : m.get? name with
    | none => exact .inl (by simp [Datum.step, hd])
    | some d =>
      refine .inr ?_
      simp only [Datum.step, hd, Option.getD_some]
      exact values _ (Mapping.mem_of_get? hd)
  | @list items elements | @tuple items elements =>
    simp only [Datum.step]
    split
    · cases hd : items[Text.natOfDigits name]? with
      | none => exact .inl rfl
      | some d => exact .inr (elements d (List.mem_of_getElem? hd))
    · exact .inl rfl

/-- So do all steps of a path. -/
theorem JsonLike.steps {d : Datum} (h : d = .absent ∨ d.JsonLike) (names : List Text) :
    names.foldl Datum.step d = .absent ∨ (names.foldl Datum.step d).JsonLike := by
  induction names generalizing d with
  | nil => exact h
  | cons name names ih =>
    refine ih ?_
    rcases h with rfl | h
    · exact .inl rfl
    · exact h.step name

end Datum

/-- A layer whose names and whose element have such values. -/
structure Layer.JsonLike (l : Layer Datum) : Prop where
  data : (Datum.mapping l.data).JsonLike
  item : ∀ loop, l.loop = some loop → loop.item.JsonLike

/-- What the layer of a loop's body asks of the scope around it is only what it is. -/
theorem Layer.get?_congr {l : Layer Datum} {k : Text} (hk : k ≠ Loop.parentKey)
    (outer outer' : Scope) : l.get? outer k = l.get? outer' k := by
  simp [Layer.get?, Loop.get?, hk]

theorem Layer.JsonLike.get? {l : Layer Datum} (h : l.JsonLike) {outer : Scope} {k : Text}
    {d : Datum} (hk : k ≠ Loop.parentKey) (hd : l.get? outer k = some d) : d.JsonLike := by
  rcases Option.or_eq_some_iff.1 hd with hloop | ⟨-, hdata⟩
  · obtain ⟨loop, hl, hg⟩ := Option.bind_eq_some_iff.1 hloop
    simp only [Loop.get?, hk, if_false] at hg
    split at hg
    · exact Option.some.inj hg ▸ .int _
    · split at hg
      · exact Option.some.inj hg ▸ .bool _
      · split at hg
        · exact Option.some.inj hg ▸ .bool _
        · split at hg
          · exact Option.some.inj hg ▸ h.item loop hl
          · cases hg
  · exact h.data.get? hdata

namespace Scope

variable {s t : Scope} {item : Datum} {path key : Text}

def JsonLike (s : Scope) : Prop := ∀ l ∈ s, l.JsonLike

theorem jsonLike_ofDatum {d : Datum} (h : d.JsonLike) : (ofDatum d).JsonLike := by
  have hroot : (root d.asMapping).JsonLike := by
    intro l hl
    obtain rfl := List.mem_singleton.1 hl
    exact ⟨h.asMapping, by rintro loop ⟨⟩⟩
  cases h <;> exact hroot

theorem JsonLike.lookup (h : s.JsonLike) (hk : key ≠ Loop.parentKey) :
    s.lookup key = .absent ∨ (s.lookup key).JsonLike := by
  induction s with
  | nil => exact .inl rfl
  | cons l outer ih =>
    rw [Scope.lookup]
    cases hd : l.get? outer key with
    | none => exact ih fun l hl => h l (List.mem_cons_of_mem _ hl)
    | some d => exact .inr ((h l List.mem_cons_self).get? hk hd)

/-- A path asks a scope for the value of its first name, and the rest of the way does not depend on
the scope. -/
theorem exists_resolve_eq (hpath : Loop.parentKey ∉ path.splitOn '.') :
    ∃ (first : Text) (rest : List Text), first ≠ Loop.parentKey ∧ ∀ s : Scope, s.resolve path =
      if path.isEmpty then .absent else rest.foldl Datum.step (s.lookup first) := by
  cases hsplit : path.splitOn '.' with
  | nil => exact absurd hsplit (Text.splitOn_ne_nil '.' path)
  | cons first rest =>
    refine ⟨first, rest, ?_, ?_⟩
    · rintro rfl
      exact hpath (hsplit ▸ List.mem_cons_self)
    · intro s
      simp only [Scope.resolve, hsplit]

/-- Of two scopes a path asks for its first name alone. -/
theorem resolve_congr_first
    (h : ∀ first rest, path.splitOn '.' = first :: rest → s.lookup first = t.lookup first) :
    s.resolve path = t.resolve path := by
  unfold resolve
  cases hsplit : path.splitOn '.' with
  | nil => rfl
  | cons first rest => simp only [h first rest hsplit]

theorem resolve_congr (hlookup : ∀ key, key ≠ Loop.parentKey → s.lookup key = t.lookup key)
    (hpath : Loop.parentKey ∉ path.splitOn '.') : s.resolve path = t.resolve path := by
  refine resolve_congr_first fun first rest hsplit => hlookup first ?_
  rintro rfl
  exact hpath (hsplit ▸ List.mem_cons_self)

/-- A pass adds the same names to scopes. -/
theorem lookup_child_congr (h : s.lookup key = t.lookup key) (hkey : key ≠ Loop.parentKey)
    (item : Datum) (index length : Int) :
    (s.child item index length).lookup key = (t.child item index length).lookup key := by
  simp only [child, lookup, h, Layer.get?_congr hkey s t]

/-- Where such a path leads: to a value of the same kind, or nowhere. -/
theorem JsonLike.resolve (h : s.JsonLike) (hpath : Loop.parentKey ∉ path.splitOn '.') :
    s.resolve path = .absent ∨ (s.resolve path).JsonLike := by
  obtain ⟨first, rest, hfirst, hresolve⟩ := exists_resolve_eq hpath
  rw [hresolve]
  split
  · exact .inl rfl
  · exact Datum.JsonLike.steps (h.lookup hfirst) rest

theorem JsonLike.child (h : s.JsonLike) (hitem : item.JsonLike) (index length : Int) :
    (s.child item index length).JsonLike := by
  intro l hl
  rcases List.mem_cons.1 hl with rfl | hl
  · refine ⟨hitem.asMapping, ?_⟩
    rintro loop ⟨⟩
    exact hitem
  · exact h l hl

end Scope
end Stencil
