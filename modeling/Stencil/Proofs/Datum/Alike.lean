import Mathlib.Data.List.Forall2
import Stencil.Proofs.Datum.JsonLike
/-! Data that differ only in what their scalars are, and what paths find in them. -/
namespace Stencil

section rel

variable {α β : Type} {R S : α → β → Prop} {a b : Option α} {a' b' : Option β} {x : α} {y : β}

theorem rel_imp (hRS : ∀ x y, R x y → S x y) (h : Option.Rel R a a') : Option.Rel S a a' := by
  cases h with
  | none => exact .none
  | some h => exact .some (hRS _ _ h)

theorem rel_or (ha : Option.Rel R a a') (hb : Option.Rel R b b') :
    Option.Rel R (a.or b) (a'.or b') := by
  cases ha with
  | none => exact hb
  | some h => exact .some h

theorem rel_getD (h : Option.Rel R a a') (hxy : R x y) : R (a.getD x) (a'.getD y) := by
  cases h with
  | none => exact hxy
  | some h => exact h

theorem rel_getElem? {xs : List α} {ys : List β} (h : List.Forall₂ R xs ys) (k : Nat) :
    Option.Rel R xs[k]? ys[k]? := by
  induction h generalizing k with
  | nil => exact .none
  | cons h _ ih =>
    cases k with
    | zero => exact .some h
    | succ k => exact ih k

end rel

namespace Datum

/-- A value that holds no others. -/
def isScalar : Datum → Bool
  | .null | .bool _ | .int _ | .float _ | .str _ => true
  | _ => false

/-- Values of the same shape: scalars that count alike in a condition, equally many elements that
are alike, or alike values for the same names. -/
inductive Alike : Datum → Datum → Prop
  | scalar {d d' : Datum} (hd : d.isScalar) (hd' : d'.isScalar)
    (htruthy : d.isTruthy = d'.isTruthy) : Alike d d'
  | sequence {d d' : Datum} {items items' : List Datum} (hd : d.items? = some items)
    (hd' : d'.items? = some items') (hitems : List.Forall₂ Alike items items') : Alike d d'
  | mapping {m m' : Mapping Datum}
    (hentries : ∀ name, Option.Rel Alike (m.get? name) (m'.get? name)) :
    Alike (.mapping m) (.mapping m')

/-- The element that a name of digits stands for. -/
def elementAt (items : List Datum) (name : Text) : Datum :=
  if !name.isEmpty && name.all Text.isAsciiDigit then
    items[Text.natOfDigits name]?.getD .absent
  else .absent

variable {d d' : Datum} {items : List Datum}

theorem isAbsent_of_isScalar (h : d.isScalar) : d.isAbsent = false := by
  cases d with
  | absent => cases h
  | null | bool | int | float | str | list | tuple | mapping | scope => rfl

theorem isMapping_of_isScalar (h : d.isScalar) : d.isMapping = false := by
  cases d with
  | mapping => cases h
  | absent | null | bool | int | float | str | list | tuple | scope => rfl

theorem items?_of_isScalar (h : d.isScalar) : d.items? = none := by
  cases d with
  | list | tuple => cases h
  | absent | null | bool | int | float | str | mapping | scope => rfl

theorem step_of_isScalar (h : d.isScalar) (name : Text) : d.step name = .absent := by
  cases d with
  | absent | null | bool | int | float | str => rfl
  | list | tuple | mapping | scope => cases h

/-- A value with elements is a list or tuple of them. -/
theorem eq_of_items? (h : d.items? = some items) : d = .list items ∨ d = .tuple items := by
  cases d with
  | list | tuple => simp_all [items?]
  | absent | null | bool | int | float | str | mapping | scope => cases h

theorem isTruthy_of_items? (h : d.items? = some items) : d.isTruthy = !items.isEmpty := by
  rcases eq_of_items? h with rfl | rfl <;> rfl

theorem step_of_items? (h : d.items? = some items) (name : Text) :
    d.step name = elementAt items name := by
  rcases eq_of_items? h with rfl | rfl <;> rfl

theorem asMapping_of_isMapping (h : d.isMapping = false) : d.asMapping = .empty := by
  cases d with
  | mapping => cases h
  | absent | null | bool | int | float | str | list | tuple | scope => rfl

/-- Mappings with alike entries in the same order. -/
theorem alike_of_entries {es es' : List (Text × Datum)}
    (h : List.Forall₂ (fun e e' => e.1 = e'.1 ∧ e.2.Alike e'.2) es es') :
    Alike (.mapping ⟨es⟩) (.mapping ⟨es'⟩) := by
  refine .mapping fun name => ?_
  unfold Mapping.get?
  induction h with
  | nil => exact .none
  | @cons e e' es es' he _ ih =>
    obtain ⟨key, d⟩ := e
    obtain ⟨rfl, hd⟩ := he
    by_cases hkey : e'.1 = name
    · simpa [Mapping.find?, hkey] using Option.Rel.some hd
    · simpa [Mapping.find?, hkey] using ih

theorem alike_empty : Alike (.mapping .empty) (.mapping .empty) := .mapping fun _ => .none

namespace Alike

theorem isAbsent (h : d.Alike d') : d.isAbsent = false ∧ d'.isAbsent = false := by
  cases h with
  | scalar hd hd' _ => exact ⟨isAbsent_of_isScalar hd, isAbsent_of_isScalar hd'⟩
  | sequence hd hd' _ =>
    rcases eq_of_items? hd with rfl | rfl <;> rcases eq_of_items? hd' with rfl | rfl <;>
      exact ⟨rfl, rfl⟩
  | mapping _ => exact ⟨rfl, rfl⟩

theorem isMapping (h : d.Alike d') : d.isMapping = d'.isMapping := by
  cases h with
  | scalar hd hd' _ => rw [isMapping_of_isScalar hd, isMapping_of_isScalar hd']
  | sequence hd hd' _ =>
    rcases eq_of_items? hd with rfl | rfl <;> rcases eq_of_items? hd' with rfl | rfl <;> rfl
  | mapping _ => rfl

theorem asMapping (h : d.Alike d') : Alike (.mapping d.asMapping) (.mapping d'.asMapping) := by
  cases h with
  | scalar hd hd' _ =>
    rw [asMapping_of_isMapping (isMapping_of_isScalar hd),
      asMapping_of_isMapping (isMapping_of_isScalar hd')]
    exact alike_empty
  | sequence hd hd' _ =>
    rcases eq_of_items? hd with rfl | rfl <;> rcases eq_of_items? hd' with rfl | rfl <;>
      exact alike_empty
  | mapping hentries => exact .mapping hentries

theorem get? {m m' : Mapping Datum} (h : Alike (.mapping m) (.mapping m')) (name : Text) :
    Option.Rel Alike (m.get? name) (m'.get? name) := by
  cases h with
  | scalar hd _ _ => cases hd
  | sequence hd _ _ => cases hd
  | mapping hentries => exact hentries name

end Alike
end Datum

/-- Passes of loops over alike elements, at the same place among as many. -/
structure Loop.Alike (l l' : Loop Datum) : Prop where
  item : l.item.Alike l'.item
  index : l.index = l'.index
  length : l.length = l'.length

structure Layer.Alike (l l' : Layer Datum) : Prop where
  data : Datum.Alike (.mapping l.data) (.mapping l'.data)
  loop : Option.Rel Loop.Alike l.loop l'.loop

/-- Scopes of alike layers. -/
def Scope.Alike (s s' : Scope) : Prop := List.Forall₂ Layer.Alike s s'

/-- What a path finds in alike data: nothing in both, alike values, or scopes around them. -/
inductive Datum.FoundAlike : Datum → Datum → Prop
  | absent : FoundAlike .absent .absent
  | value {d d' : Datum} (h : d.Alike d') : FoundAlike d d'
  | scope {s s' : Scope} (h : s.Alike s') : FoundAlike (.scope s) (.scope s')

namespace Datum

variable {d d' : Datum}

theorem foundAlike_getD {a a' : Option Datum} (h : Option.Rel Alike a a') :
    FoundAlike (a.getD .absent) (a'.getD .absent) :=
  rel_getD (rel_imp (fun _ _ => .value) h) .absent

/-- A step into alike values finds alike values, or nothing in both. -/
theorem Alike.step (h : d.Alike d') (name : Text) : FoundAlike (d.step name) (d'.step name) := by
  cases h with
  | scalar hd hd' _ =>
    rw [step_of_isScalar hd, step_of_isScalar hd']
    exact .absent
  | sequence hd hd' hitems =>
    rw [step_of_items? hd, step_of_items? hd']
    unfold elementAt
    split
    · exact foundAlike_getD (rel_getElem? hitems _)
    · exact .absent
  | mapping hentries => exact foundAlike_getD (hentries name)

theorem Alike.items? (h : d.Alike d') :
    Option.Rel (List.Forall₂ Alike) d.items? d'.items? := by
  cases h with
  | scalar hd hd' _ =>
    rw [items?_of_isScalar hd, items?_of_isScalar hd']
    exact .none
  | sequence hd hd' hitems =>
    rw [hd, hd']
    exact .some hitems
  | mapping _ => exact .none

theorem Alike.isTruthy (h : d.Alike d') : d.isTruthy = d'.isTruthy := by
  cases h with
  | scalar _ _ htruthy => exact htruthy
  | sequence hd hd' hitems =>
    rw [isTruthy_of_items? hd, isTruthy_of_items? hd']
    cases hitems with
    | nil => rfl
    | cons _ _ => rfl
  | mapping _ => rfl

theorem FoundAlike.items? (h : FoundAlike d d') :
    Option.Rel (List.Forall₂ Alike) d.items? d'.items? := by
  cases h with
  | absent => exact .none
  | value h => exact h.items?
  | scope _ => exact .none

theorem FoundAlike.isTruthy (h : FoundAlike d d') : d.isTruthy = d'.isTruthy := by
  cases h with
  | absent => rfl
  | value h => exact h.isTruthy
  | scope _ => rfl

end Datum

section lookup

variable {l l' : Loop Datum} {s s' : Scope}

/-- The names of a loop have alike values, if its element and the scopes around it are alike. -/
theorem Loop.Alike.get? (h : l.Alike l') (hs : s.Alike s') (key : Text) :
    Option.Rel Datum.FoundAlike (l.get? s key) (l'.get? s' key) := by
  have hempty : s.isEmpty = s'.isEmpty := by
    cases hs with
    | nil => rfl
    | cons _ _ => rfl
  have hexposes : l.exposesItem = l'.exposesItem := by
    rw [Loop.exposesItem, Loop.exposesItem, h.item.isMapping]
  have hint : ∀ n, Datum.FoundAlike (.int n) (.int n) := fun n => .value (.scalar rfl rfl rfl)
  have hbool : ∀ b, Datum.FoundAlike (.bool b) (.bool b) := fun b => .value (.scalar rfl rfl rfl)
  have hfirst : l.isFirst = l'.isFirst := by rw [Loop.isFirst, Loop.isFirst, h.index]
  have hlast : l.isLast = l'.isLast := by rw [Loop.isLast, Loop.isLast, h.index, h.length]
  -- The names are tried in the same order in both loops, so the splits are the same as well.
  unfold Loop.get?
  rw [h.index, hfirst, hlast, hempty, hexposes, h.item.isAbsent.1, h.item.isAbsent.2]
  split
  · exact .some (hint _)
  · split
    · exact .some (hbool _)
    · split
      · exact .some (hbool _)
      · split
        · split
          · exact .none
          · exact .some (.scope hs)
        · split
          · exact .some (.value h.item)
          · exact .none

theorem Layer.Alike.get? {l l' : Layer Datum} (h : l.Alike l') (hs : s.Alike s') (key : Text) :
    Option.Rel Datum.FoundAlike (l.get? s key) (l'.get? s' key) := by
  have hdata : Option.Rel Datum.FoundAlike (l.data.get? key) (l'.data.get? key) :=
    rel_imp (fun _ _ => .value) (h.data.get? key)
  have hloop : Option.Rel Datum.FoundAlike (l.loop.bind fun loop => loop.get? s key)
      (l'.loop.bind fun loop => loop.get? s' key) := by
    obtain ⟨data, loop⟩ := l
    obtain ⟨data', loop'⟩ := l'
    cases h.loop with
    | none => exact .none
    | some hl => exact hl.get? hs key
  exact rel_or hloop hdata

namespace Scope

theorem Alike.lookup (h : s.Alike s') (key : Text) :
    Datum.FoundAlike (s.lookup key) (s'.lookup key) := by
  induction h with
  | nil => exact .absent
  | cons hl hs ih =>
    rw [Scope.lookup, Scope.lookup]
    exact rel_getD (hl.get? hs key) ih

end Scope

theorem Datum.FoundAlike.step {d d' : Datum} (h : FoundAlike d d') (name : Text) :
    FoundAlike (d.step name) (d'.step name) := by
  cases h with
  | absent => exact .absent
  | value h => exact h.step name
  | scope h => exact h.lookup name

theorem Datum.FoundAlike.steps {d d' : Datum} (h : FoundAlike d d') (names : List Text) :
    FoundAlike (names.foldl Datum.step d) (names.foldl Datum.step d') := by
  induction names generalizing d d' with
  | nil => exact h
  | cons name names ih => exact ih (h.step name)

namespace Scope

/-- A path finds alike values in alike scopes, or nothing in both. -/
theorem Alike.resolve (h : s.Alike s') (path : Text) :
    Datum.FoundAlike (s.resolve path) (s'.resolve path) := by
  unfold Scope.resolve
  split
  · exact .absent
  · split
    · exact .absent
    · exact (h.lookup _).steps _

theorem ofDatum_of_jsonLike {d : Datum} (h : d.JsonLike) : ofDatum d = root d.asMapping := by
  cases h with
  | null | bool | int | float | str | list | tuple | mapping => rfl

theorem alike_ofDatum {d d' : Datum} (h : d.Alike d') (hd : d.JsonLike) (hd' : d'.JsonLike) :
    (ofDatum d).Alike (ofDatum d') := by
  rw [ofDatum_of_jsonLike hd, ofDatum_of_jsonLike hd']
  exact .cons ⟨h.asMapping, .none⟩ .nil

theorem Alike.child {item item' : Datum} (h : s.Alike s') (hitem : item.Alike item')
    (index length : Int) : (s.child item index length).Alike (s'.child item' index length) :=
  .cons ⟨hitem.asMapping, .some ⟨hitem, rfl, rfl⟩⟩ h

end Scope

end lookup
end Stencil
