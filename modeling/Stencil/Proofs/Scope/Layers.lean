import Stencil.Proofs.Scope.Flatten
/-! The names of a scope as its layers merged: in which order they come, and that each is found there
as it is looked up. -/
namespace Stencil

/-- The mappings that a layer adds to those around it: its data, and the names of its loop. -/
def Layer.mappings (l : Layer Datum) : List (Mapping Datum) :=
  l.data :: (l.loop.map Loop.entries).toList

/-- A layer in which no name stands twice, and in which neither a value nor the element of its loop
is absent. -/
structure Layer.Present (l : Layer Datum) : Prop extends l.Regular where
  values : ∀ e ∈ l.data.entries, e.2 ≠ .absent

section mergeLayers

variable {n : Mapping Datum}

theorem mergeLayers_concat (ms : List (Mapping Datum)) (m : Mapping Datum) :
    mergeLayers (ms ++ [m]) = (mergeLayers ms).merge m := List.foldl_append

theorem merge_foldl (hn : n.Distinct) (m : Mapping Datum) (ms : List (Mapping Datum)) :
    m.merge (ms.foldl Mapping.merge n) = ms.foldl Mapping.merge (m.merge n) := by
  induction ms generalizing n with
  | nil => rfl
  | cons p ms ih =>
    rw [List.foldl_cons, List.foldl_cons, ih (Mapping.distinct_merge hn p), Mapping.merge_assoc hn]

/-- Mappings that are merged first and the result then merged in are merged in one by one. -/
theorem merge_mergeLayers (m : Mapping Datum) (ms : List (Mapping Datum)) :
    m.merge (mergeLayers ms) = ms.foldl Mapping.merge m := merge_foldl Mapping.distinct_empty m ms

/-- Neighbours may be merged first. -/
theorem mergeLayers_nested (ms ns ps : List (Mapping Datum)) :
    mergeLayers (ms ++ mergeLayers ns :: ps) = mergeLayers (ms ++ ns ++ ps) := by
  calc
    mergeLayers (ms ++ mergeLayers ns :: ps) =
        ps.foldl Mapping.merge ((mergeLayers ms).merge (mergeLayers ns)) := List.foldl_append
    _ = ps.foldl Mapping.merge (ns.foldl Mapping.merge (mergeLayers ms)) := by
      rw [merge_mergeLayers]
    _ = mergeLayers (ms ++ ns ++ ps) := by
      rw [mergeLayers, mergeLayers, List.foldl_append, List.foldl_append]

theorem mergeLayers_empty (ms ps : List (Mapping Datum)) :
    mergeLayers (ms ++ .empty :: ps) = mergeLayers (ms ++ ps) := by
  have h := mergeLayers_nested ms [] ps
  rwa [List.append_nil] at h

/-- Layers merged as they are given: each a mapping, or null, which has no names. -/
def mergeGiven (layers : List Datum) : Mapping Datum := mergeLayers (layers.map Datum.asMapping)

theorem mergeGiven_nested (xs ys zs : List Datum) :
    mergeGiven (xs ++ .mapping (mergeGiven ys) :: zs) = mergeGiven (xs ++ ys ++ zs) := by
  simp only [mergeGiven, List.map_append, List.map_cons]
  exact mergeLayers_nested _ _ _

theorem mergeGiven_nameless {d : Datum} (hd : d.asMapping = .empty) (xs zs : List Datum) :
    mergeGiven (xs ++ d :: zs) = mergeGiven (xs ++ zs) := by
  simp only [mergeGiven, List.map_append, List.map_cons, hd]
  exact mergeLayers_empty _ _

end mergeLayers

namespace Scope

variable {s : Scope} {key : Text}

/-- The outermost layer is merged first, and each layer's loop right after its data. -/
theorem flatten_eq_mergeLayers (s : Scope) :
    s.flatten = mergeLayers (s.reverse.flatMap Layer.mappings) := by
  induction s with
  | nil => rfl
  | cons l outer ih =>
    rw [List.reverse_cons, List.flatMap_append, List.flatMap_singleton]
    cases hloop : l.loop with
    | none =>
      have hl : l.mappings = [l.data] := by rw [Layer.mappings, hloop]; rfl
      rw [hl, mergeLayers_concat, ← ih]
      simp only [flatten, hloop]
    | some loop =>
      have hl : l.mappings = [l.data] ++ [loop.entries] := by rw [Layer.mappings, hloop]; rfl
      rw [hl, ← List.append_assoc, mergeLayers_concat, mergeLayers_concat, ← ih]
      simp only [flatten, hloop]

def Present (s : Scope) : Prop := ∀ l ∈ s, l.Present

theorem Present.ne_absent_of_mem (h : s.Present) : ∀ e ∈ s.flatten.entries, e.2 ≠ .absent :=
  forall_mem_flatten (P := fun d => d ≠ .absent) nofun nofun fun l hl =>
    ⟨(h l hl).values, (h l hl).item⟩

/-- A name of the scope, apart from that of the enclosing one, is in the one mapping if the layers
have a value for it, and then with that value. -/
theorem Present.get?_flatten_eq (h : s.Present) (hkey : key ≠ Loop.parentKey) :
    (s.flatten.get? key = none ∧ s.lookup key = .absent) ∨
      (s.flatten.get? key = some (s.lookup key) ∧ s.lookup key ≠ .absent) := by
  have hlookup := get?_flatten (fun l hl => (h l hl).toRegular) hkey
  cases hget : s.flatten.get? key with
  | none =>
    rw [hget, Option.getD_none] at hlookup
    exact .inl ⟨rfl, hlookup.symm⟩
  | some d =>
    rw [hget, Option.getD_some] at hlookup
    have hd : d ≠ .absent := h.ne_absent_of_mem _ (Mapping.mem_of_get? hget)
    exact .inr ⟨congrArg some hlookup, hlookup ▸ hd⟩

/-- The one mapping of a scope agrees with its layers. A name other than that of the enclosing scope
is in it exactly if the lookup finds a value, which is the same; and its entries are those of the
layers merged in order, from the outermost one inwards, with the names of a loop after the data of
its layer. Merging is associative, and what has no names makes no difference to it. -/
theorem flatten_agrees :
    (∀ s : Scope, s.Present → ∀ key, key ≠ Loop.parentKey →
      (key ∈ s.flatten.keys ↔ s.lookup key ≠ .absent) ∧
      (key ∈ s.flatten.keys → s.flatten.get? key = some (s.lookup key))) ∧
    (∀ s : Scope, s.flatten = mergeLayers (s.reverse.flatMap Layer.mappings)) ∧
    (∀ xs ys zs : List Datum,
      mergeGiven (xs ++ .mapping (mergeGiven ys) :: zs) = mergeGiven (xs ++ ys ++ zs)) ∧
    (∀ (xs zs : List Datum) (d : Datum), d = .null ∨ d = .mapping .empty →
      mergeGiven (xs ++ d :: zs) = mergeGiven (xs ++ zs)) ∧
    ∀ m : Mapping Datum, m.Distinct → mergeGiven [.mapping m] = m := by
  refine ⟨?_, flatten_eq_mergeLayers, mergeGiven_nested, ?_, fun m hm => Mapping.empty_merge hm⟩
  · intro s hs key hkey
    rcases hs.get?_flatten_eq hkey with ⟨hnone, habsent⟩ | ⟨hsome, hfound⟩
    · have hkeys : key ∉ s.flatten.keys := Mapping.get?_eq_none_iff.1 hnone
      exact ⟨iff_of_false hkeys fun hfound => hfound habsent, fun hmem => absurd hmem hkeys⟩
    · have hkeys : key ∈ s.flatten.keys := List.mem_map_of_mem (Mapping.mem_of_get? hsome)
      exact ⟨iff_of_true hkeys hfound, fun _ => hsome⟩
  · rintro xs zs d (rfl | rfl)
    · exact mergeGiven_nameless rfl xs zs
    · exact mergeGiven_nameless rfl xs zs

/-- A loop over a mapping with a field that is named like the index, in a plain layer, in a loop over
a number. -/
def spoofingLayers : Scope :=
  [⟨⟨[("_index", .str "x"), ("a", .int 1)]⟩,
      some ⟨.mapping ⟨[("_index", .str "x"), ("a", .int 1)]⟩, 1, 2⟩⟩,
    ⟨⟨[("a", .null), ("b", .int 2)]⟩, none⟩, ⟨.empty, some ⟨.int 5, 0, 1⟩⟩,
    ⟨⟨[("_last", .str "y")]⟩, none⟩]

/-- The index is that of the inner loop, and the element that of the outer one. -/
theorem flatten_agrees_spoofingLayers :
    spoofingLayers.Present ∧ spoofingLayers.flatten.get? "_index" = some (.int 1) ∧
      spoofingLayers.flatten.get? "_value" = some (.int 5) ∧
      spoofingLayers.flatten.keys =
        (["_last", "_value", "_index", "_first", "a", "b"] : List Text) ∧
      mergeGiven [.mapping ⟨[("a", .null)]⟩, .null] = ⟨[("a", .null)]⟩ := by
  have hpresent : spoofingLayers.Present := by
    intro l hl
    simp only [spoofingLayers, List.mem_cons, List.not_mem_nil, or_false] at hl
    rcases hl with rfl | rfl | rfl | rfl
    · exact ⟨⟨by decide, by rintro loop ⟨⟩; exact nofun⟩, by simp⟩
    · exact ⟨⟨by decide, nofun⟩, by simp⟩
    · exact ⟨⟨by decide, by rintro loop ⟨⟩; exact nofun⟩, by simp [Mapping.empty]⟩
    · exact ⟨⟨by decide, nofun⟩, by simp⟩
  obtain ⟨hagrees, -, -, hnameless, hself⟩ := flatten_agrees
  refine ⟨hpresent, ?_, ?_, by decide +kernel, ?_⟩
  · exact (hagrees _ hpresent "_index" (by decide)).2 (by decide +kernel)
  · exact (hagrees _ hpresent "_value" (by decide)).2 (by decide +kernel)
  · exact (hnameless [_] [] .null (.inl rfl)).trans (hself _ (by decide))

end Scope
end Stencil
