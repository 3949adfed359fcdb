import Stencil.Proofs.Datum.JsonLike
import Stencil.Proofs.Mapping.Merge
/-! The names of a scope in one mapping: they are looked up there as in the layers. -/
namespace Stencil

namespace Loop

variable {l : Loop Datum} {key : Text}

theorem distinct_entries (l : Loop Datum) : l.entries.Distinct := by
  unfold Mapping.Distinct entries entriesWith
  cases l.exposesItem
  · show [indexKey, firstKey, lastKey].Nodup
    decide
  · show [valueKey, indexKey, firstKey, lastKey].Nodup
    decide

/-- A loop with an element defines the names that it lists, and that of the enclosing scope. -/
theorem get?_eq_entries (hitem : l.item ≠ .absent) (hkey : key ≠ parentKey) (outer : Scope) :
    l.get? outer key = l.entries.get? key := by
  have hpresent : l.item.isAbsent = false := by
    cases h : l.item with
    | absent => exact absurd h hitem
    | null | bool | int | float | str | list | tuple | mapping | scope => rfl
  by_cases hvalue : key = valueKey
  · subst hvalue
    have hindex : valueKey ≠ indexKey := by decide
    have hfirst : valueKey ≠ firstKey := by decide
    have hlast : valueKey ≠ lastKey := by decide
    cases hexposes : l.exposesItem <;>
      simp [get?, entries, entriesWith, Mapping.get?, Mapping.find?, hkey, hpresent, hexposes,
        hindex, hfirst, hlast, hindex.symm, hfirst.symm, hlast.symm]
  · cases hexposes : l.exposesItem <;>
      simp [get?, entries, entriesWith, Mapping.get?, Mapping.find?, hkey, hexposes, hvalue,
        Ne.symm hvalue, eq_comm]

end Loop

/-- A layer all of whose values, and the element of whose loop, have a property. -/
structure Layer.All (P : Datum → Prop) (l : Layer Datum) : Prop where
  values : ∀ e ∈ l.data.entries, P e.2
  item : ∀ loop, l.loop = some loop → P loop.item

/-- A layer in which no name stands twice, and whose loop has an element. -/
structure Layer.Regular (l : Layer Datum) : Prop where
  distinct : l.data.Distinct
  item : ∀ loop, l.loop = some loop → loop.item ≠ .absent

theorem Layer.JsonLike.regular {l : Layer Datum} (h : l.JsonLike) : l.Regular :=
  ⟨h.data.distinct, fun loop hloop => (h.item loop hloop).ne_absent⟩

namespace Scope

variable {s : Scope} {item : Datum} {key : Text} {m : Mapping Datum}

def Regular (s : Scope) : Prop := ∀ l ∈ s, l.Regular

theorem JsonLike.regular (h : s.JsonLike) : s.Regular := fun l hl => (h l hl).regular

theorem regular_root (hm : m.Distinct) : (root m).Regular := by
  intro l hl
  obtain rfl := List.mem_singleton.1 hl
  exact ⟨hm, by rintro loop ⟨⟩⟩

theorem Regular.child (h : s.Regular) (hitem : item.JsonLike) (index length : Int) :
    (s.child item index length).Regular := by
  intro l hl
  rcases List.mem_cons.1 hl with rfl | hl
  · refine ⟨hitem.asMapping.distinct, ?_⟩
    rintro loop ⟨⟩
    exact hitem.ne_absent
  · exact h l hl

theorem lookup_root (m : Mapping Datum) (key : Text) :
    (root m).lookup key = (m.get? key).getD .absent := rfl

theorem distinct_flatten (s : Scope) : s.flatten.Distinct := by
  induction s with
  | nil => exact Mapping.distinct_empty
  | cons l outer ih =>
    simp only [flatten]
    split
    · exact Mapping.distinct_merge ih _
    · exact Mapping.distinct_merge (Mapping.distinct_merge ih _) _

section

variable {P : Datum → Prop}

theorem forall_mem_entries {l : Loop Datum} (hint : ∀ n, P (.int n)) (hbool : ∀ b, P (.bool b))
    (hitem : P l.item) : ∀ e ∈ l.entries.entries, P e.2 := by
  unfold Loop.entries Loop.entriesWith
  cases l.exposesItem <;> simp [hint, hbool, hitem]

/-- The one mapping holds the values of the layers, the elements of the loops, and numbers and truth
values of the loops' own. -/
theorem forall_mem_flatten (hint : ∀ n, P (.int n)) (hbool : ∀ b, P (.bool b))
    (h : ∀ l ∈ s, l.All P) : ∀ e ∈ s.flatten.entries, P e.2 := by
  induction s with
  | nil => exact nofun
  | cons l outer ih =>
    obtain ⟨hl, houter⟩ := List.forall_mem_cons.1 h
    have hown := Mapping.forall_merge (ih houter) hl.values
    cases hloop : l.loop with
    | none => simpa only [flatten, hloop] using hown
    | some loop =>
      have hentries := forall_mem_entries hint hbool (hl.item loop hloop)
      simpa only [flatten, hloop] using Mapping.forall_merge hown hentries

end

/-- A name of the scope, apart from that of the enclosing one, has the value that the layers give
it: the names of a loop win over its data, and inner layers over outer ones. -/
theorem get?_flatten (hs : s.Regular) (hkey : key ≠ Loop.parentKey) :
    (s.flatten.get? key).getD .absent = s.lookup key := by
  induction s with
  | nil => rfl
  | cons l outer ih =>
    have hl : l.Regular := hs l List.mem_cons_self
    have houter := ih fun l hl => hs l (List.mem_cons_of_mem _ hl)
    have hown : ((flatten outer).merge l.data).get? key =
        (l.data.get? key).or ((flatten outer).get? key) := Mapping.get?_merge hl.distinct _ _
    rw [lookup, ← houter, Layer.get?]
    cases hloop : l.loop with
    | none =>
      simp only [flatten, hloop, hown, Option.bind_none, Option.none_or]
      cases l.data.get? key <;> rfl
    | some loop =>
      simp only [flatten, hloop, Option.bind_some]
      rw [Mapping.get?_merge loop.distinct_entries, hown,
        Loop.get?_eq_entries (hl.item loop hloop) hkey]
      cases loop.entries.get? key <;> cases l.data.get? key <;> rfl

end Scope
end Stencil
