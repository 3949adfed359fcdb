import Stencil.Datum.Print
import Stencil.Proofs.Datum.Plain
/-! What a path finds in data of documents can be printed: nothing in them is absent. -/
namespace Stencil

namespace Datum

variable {d : Datum} {ds : List Datum} {es : List (Text × Datum)} {s : Scope} {name : Text}

theorem anyHoldsAbsent_eq_false_iff :
    anyHoldsAbsent ds = false ↔ ∀ d ∈ ds, d.holdsAbsent = false := by
  induction ds with
  | nil => simp [anyHoldsAbsent]
  | cons d ds ih => simp [anyHoldsAbsent, ih]

theorem anyEntryHoldsAbsent_eq_false_iff :
    anyEntryHoldsAbsent es = false ↔ ∀ e ∈ es, e.2.holdsAbsent = false := by
  induction es with
  | nil => simp [anyEntryHoldsAbsent]
  | cons e es ih => simp [anyEntryHoldsAbsent, ih]

theorem holdsAbsent_list {items : List Datum} (h : ∀ d ∈ items, d.plain.holdsAbsent = false) :
    (list items).plain.holdsAbsent = false := by
  rw [plain_list, holdsAbsent, anyHoldsAbsent_eq_false_iff]
  exact List.forall_mem_map.2 h

theorem holdsAbsent_mapping {m : Mapping Datum}
    (h : ∀ e ∈ m.entries, e.2.plain.holdsAbsent = false) :
    (mapping m).plain.holdsAbsent = false := by
  rw [plain_mapping]
  exact anyEntryHoldsAbsent_eq_false_iff.2 (List.forall_mem_map.2 h)

theorem holdsAbsent_scope (h : ∀ l ∈ s, l.All fun d => d.plain.holdsAbsent = false) :
    (scope s).plain.holdsAbsent = false := by
  rw [plain_scope]
  exact holdsAbsent_mapping (Scope.forall_mem_flatten (fun _ => rfl) (fun _ => rfl) h)

theorem JsonLike.holdsAbsent_plain (h : d.JsonLike) : d.plain.holdsAbsent = false := by
  induction h with
  | null | bool | int | float | str => rfl
  | list _ ih | tuple _ ih => exact holdsAbsent_list ih
  | mapping _ _ ih => exact holdsAbsent_mapping ih

theorem arePrintable_eq_true_iff :
    arePrintable ds = true ↔ ∀ d ∈ ds, d.isPrintable = true := by
  induction ds with
  | nil => simp [arePrintable]
  | cons d ds ih => simp [arePrintable, ih]

theorem JsonLike.isPrintable (h : d.JsonLike) : d.isPrintable = true := by
  induction h with
  | null | bool | int | float | str => rfl
  | list _ ih | tuple _ ih => exact arePrintable_eq_true_iff.2 ih
  | mapping distinct values =>
    rw [Datum.isPrintable, (JsonLike.mapping distinct values).holdsAbsent_plain]
    rfl

/-- What a path can find in data of documents: nothing, such data, or a scope that holds such
data. -/
inductive Found : Datum → Prop
  | absent : Found .absent
  | value {d : Datum} (h : d.JsonLike) : Found d
  | scope {s : Scope} (h : s.JsonLike) : Found (.scope s)

theorem Found.holdsAbsent_plain (h : d.Found) (hd : d ≠ .absent) :
    d.plain.holdsAbsent = false := by
  cases h with
  | absent => exact absurd rfl hd
  | value h => exact h.holdsAbsent_plain
  | scope h =>
    refine holdsAbsent_scope fun l hl => ⟨fun e he => ?_, fun loop hloop => ?_⟩
    · exact ((h l hl).data.of_mem he).holdsAbsent_plain
    · exact ((h l hl).item loop hloop).holdsAbsent_plain

theorem Found.printed (h : d.Found) : d.printed = .ok d.print := by
  refine printed_eq_ok_iff.2 ⟨?_, rfl⟩
  cases h with
  | absent => rfl
  | value h => exact h.isPrintable
  | @scope s h =>
    rw [isPrintable, (Found.scope h).holdsAbsent_plain nofun]
    rfl

theorem Found.items? {items : List Datum} (h : d.Found) (hd : d.items? = some items) :
    ∀ item ∈ items, item.JsonLike := by
  cases h with
  | absent => cases hd
  | value h => exact h.of_items? hd
  | scope h => cases hd

end Datum

namespace Scope

variable {s : Scope} {path key : Text}

theorem JsonLike.tail {l : Layer Datum} (h : JsonLike (l :: s)) : s.JsonLike :=
  fun k hk => h k (List.mem_cons_of_mem l hk)

/-- The name of the enclosing scope finds that scope, or what the data have under this name. -/
theorem found_layer {l : Layer Datum} {d : Datum} (h : JsonLike (l :: s))
    (hd : l.get? s key = some d) : d.Found := by
  have hl : l.JsonLike := h l List.mem_cons_self
  by_cases hkey : key = Loop.parentKey
  · subst hkey
    rcases Option.or_eq_some_iff.1 hd with hloop | ⟨-, hdata⟩
    · obtain ⟨loop, -, hg⟩ := Option.bind_eq_some_iff.1 hloop
      have hscope : loop.get? s Loop.parentKey = if s.isEmpty then none else some (.scope s) := rfl
      rw [hscope] at hg
      split at hg
      · cases hg
      · exact Option.some.inj hg ▸ .scope h.tail
    · exact .value (hl.data.get? hdata)
  · exact .value (hl.get? hkey hd)

theorem JsonLike.found_lookup (h : s.JsonLike) (key : Text) : (s.lookup key).Found := by
  induction s with
  | nil => exact .absent
  | cons l outer ih =>
    rw [Scope.lookup]
    cases hd : l.get? outer key with
    | none => exact ih h.tail
    | some d => exact found_layer h hd

end Scope

namespace Datum

variable {d : Datum}

theorem Found.step (h : d.Found) (name : Text) : (d.step name).Found := by
  cases h with
  | absent => exact .absent
  | value h =>
    rcases h.step name with habsent | hvalue
    · rw [habsent]
      exact .absent
    · exact .value hvalue
  | scope h => exact h.found_lookup name

theorem Found.steps (h : d.Found) (names : List Text) : (names.foldl Datum.step d).Found := by
  induction names generalizing d with
  | nil => exact h
  | cons name names ih => exact ih (h.step name)

end Datum

/-- A path leads from a scope to nothing, to data, or to a scope around it. -/
theorem Scope.JsonLike.found_resolve {s : Scope} (h : s.JsonLike) (path : Text) :
    (s.resolve path).Found := by
  unfold Scope.resolve
  split
  · exact .absent
  · split
    · exact .absent
    · exact (h.found_lookup _).steps _

end Stencil
