import Stencil.Proofs.Mapping.Merge
/-! Entries that win over those of another mapping: in value, but not in position. -/
namespace Stencil.Mapping

variable {α : Type} {m n : Mapping α} {k : Text} {v : α} {es : List (Text × α)}

/-- Every name of `n` has its value from there and every other name from `base`; the names of `base`
come first, and then those that are new. -/
structure Overrides (base n m : Mapping α) : Prop where
  own : ∀ k v, n.get? k = some v → m.get? k = some v
  other : ∀ k, k ∉ n.keys → m.get? k = base.get? k
  order : m.keys = base.keys ++ n.keys.filter (· ∉ base.keys)

theorem keys_merge (hn : n.Distinct) (m : Mapping α) :
    (m.merge n).keys = m.keys ++ n.keys.filter (· ∉ m.keys) := by
  obtain ⟨es⟩ := n
  induction es generalizing m with
  | nil => exact (List.append_nil _).symm
  | cons e es ih =>
    obtain ⟨k, v⟩ := e
    obtain ⟨hk, hes⟩ := List.nodup_cons.1 hn
    have hkeys : (⟨(k, v) :: es⟩ : Mapping α).keys = k :: (⟨es⟩ : Mapping α).keys := rfl
    rw [merge_cons, ih (m.insert k v) hes, keys_insert, hkeys]
    by_cases hmem : k ∈ m.keys
    · rw [if_pos hmem, List.filter_cons_of_neg (by simpa using hmem)]
    · have hrest : (⟨es⟩ : Mapping α).keys.filter (· ∉ m.keys ++ [k]) =
          (⟨es⟩ : Mapping α).keys.filter (· ∉ m.keys) := by
        apply List.filter_congr
        intro l hl
        have hne : l ≠ k := by
          rintro rfl
          exact hk hl
        simp [hne]
      rw [if_neg hmem, List.filter_cons_of_pos (by simpa using hmem), hrest, List.append_assoc]
      rfl

theorem overrides_merge (hn : n.Distinct) (m : Mapping α) : Overrides m n (m.merge n) where
  own k v h := by rw [get?_merge hn, h, Option.some_or]
  other k h := by rw [get?_merge hn, get?_eq_none_iff.2 h, Option.none_or]
  order := keys_merge hn m

/-- In a mapping without repetition a name has one entry. -/
theorem filter_eq_of_get? (hm : m.Distinct) (h : m.get? k = some v) :
    m.entries.filter (fun e => e.1 = k) = [(k, v)] := by
  obtain ⟨es⟩ := m
  induction es with
  | nil => cases h
  | cons e es ih =>
    obtain ⟨l, w⟩ := e
    obtain ⟨hl, hes⟩ := List.nodup_cons.1 hm
    by_cases hlk : l = k
    · subst hlk
      have hw : w = v := by simpa [get?, find?] using h
      have hnone : es.filter (fun e => e.1 = l) = [] := by
        apply List.filter_eq_nil_iff.2
        intro e he heq
        exact hl (List.mem_map.2 ⟨e, he, by simpa using heq⟩)
      rw [List.filter_cons_of_pos (by simp), hnone, hw]
    · have hrest : (⟨es⟩ : Mapping α).get? k = some v := by simpa [get?, find?, hlk] using h
      rw [List.filter_cons_of_neg (by simpa using hlk)]
      exact ih hes hrest

end Stencil.Mapping
