import Stencil.Mapping
/-! Mappings merged into each other: what the result holds, and in which order. -/
namespace Stencil.Mapping

variable {α : Type} {P : α → Prop} {m n : Mapping α} {k l : Text} {v w : α} {es : List (Text × α)}

theorem forall_put (hv : P v) (h : ∀ e ∈ es, P e.2) : ∀ e ∈ put k v es, P e.2 := by
  induction es with
  | nil => simpa [put] using hv
  | cons e es ih =>
    obtain ⟨he, hes⟩ := List.forall_mem_cons.1 h
    by_cases hk : e.1 = k
    · simp only [put, hk, if_true]
      exact List.forall_mem_cons.2 ⟨hv, hes⟩
    · simp only [put, hk, if_false]
      exact List.forall_mem_cons.2 ⟨he, ih hes⟩

/-- A merged mapping holds no values but those of its parts. -/
theorem forall_merge (hm : ∀ e ∈ m.entries, P e.2) (hn : ∀ e ∈ n.entries, P e.2) :
    ∀ e ∈ (m.merge n).entries, P e.2 := by
  obtain ⟨es⟩ := n
  induction es generalizing m with
  | nil => exact hm
  | cons e es ih =>
    obtain ⟨he, hes⟩ := List.forall_mem_cons.1 hn
    exact ih (forall_put he hm) hes

/-- A merged mapping asks its right part first. -/
theorem get?_merge (hn : n.Distinct) (m : Mapping α) (k : Text) :
    (m.merge n).get? k = (n.get? k).or (m.get? k) := by
  obtain ⟨es⟩ := n
  induction es generalizing m with
  | nil => rfl
  | cons e es ih =>
    obtain ⟨key, v⟩ := e
    obtain ⟨hkey, hes⟩ := List.nodup_cons.1 hn
    rw [merge_cons, ih (m.insert key v) hes]
    by_cases hk : k = key
    · subst hk
      have hnone : (⟨es⟩ : Mapping α).get? k = none := get?_eq_none_iff.2 hkey
      rw [hnone, get?_insert_self]
      simp [get?, find?]
    · rw [get?_insert_of_ne hk]
      simp [get?, find?, Ne.symm hk]

theorem put_of_notMem (h : k ∉ es.map Prod.fst) (v : α) : put k v es = es ++ [(k, v)] := by
  induction es with
  | nil => rfl
  | cons e es ih =>
    obtain ⟨hne, hes⟩ := not_or.1 (mt List.mem_cons.2 h)
    rw [put, if_neg (Ne.symm hne), ih hes]
    rfl

/-- Entries with different names make a mapping that lists them as they are. -/
theorem merge_of_nodup (h : ((m.entries ++ es).map Prod.fst).Nodup) :
    m.merge ⟨es⟩ = ⟨m.entries ++ es⟩ := by
  induction es generalizing m with
  | nil => rw [List.append_nil]; rfl
  | cons e es ih =>
    obtain ⟨k, v⟩ := e
    have hk : k ∉ m.entries.map Prod.fst := by
      intro hk
      rw [List.map_append, List.map_cons] at h
      exact (List.nodup_append.1 h).2.2 k hk k List.mem_cons_self rfl
    have hinsert : m.insert k v = ⟨m.entries ++ [(k, v)]⟩ :=
      congrArg Mapping.mk (put_of_notMem hk v)
    rw [merge_cons, hinsert, ih (by simpa using h)]
    simp

theorem ofList_entries (h : m.Distinct) : ofList m.entries = m := merge_of_nodup (m := .empty) h

/-- A mapping without repetition does not change when it is merged into nothing. -/
theorem empty_merge (h : m.Distinct) : empty.merge m = m := ofList_entries h

theorem mem_keys_insert : l ∈ (m.insert k v).keys ↔ l = k ∨ l ∈ m.keys := by
  rw [keys_insert]
  split
  · next hk =>
    refine ⟨.inr, ?_⟩
    rintro (rfl | hl)
    · exact hk
    · exact hl
  · simp [or_comm]

/-- Of two values for one name the later one stays, at the place of the earlier one. -/
theorem insert_insert_self (m : Mapping α) (k : Text) (v w : α) :
    (m.insert k v).insert k w = m.insert k w := by
  have hput : ∀ es : List (Text × α), put k w (put k v es) = put k w es := by
    intro es
    induction es with
    | nil => simp [put]
    | cons e es ih => by_cases hk : e.1 = k <;> simp [put, hk, ih]
  exact congrArg Mapping.mk (hput m.entries)

/-- A name that is there has its place, so that it may get its value before or after another name
does. -/
theorem insert_comm (hk : k ∈ m.keys) (hne : k ≠ l) :
    (m.insert k v).insert l w = (m.insert l w).insert k v := by
  have hput : ∀ es : List (Text × α), k ∈ es.map Prod.fst →
      put l w (put k v es) = put k v (put l w es) := by
    intro es hmem
    induction es with
    | nil => cases hmem
    | cons e es ih =>
      by_cases hek : e.1 = k
      · have hel : e.1 ≠ l := hek ▸ hne
        simp [put, hek, hne]
      · have hes : k ∈ es.map Prod.fst := by
          rcases List.mem_cons.1 hmem with h | h
          · exact absurd h.symm hek
          · exact h
        by_cases hel : e.1 = l
        · simp [put, hel, hne.symm]
        · simp [put, hek, hel, ih hes]
  exact congrArg Mapping.mk (hput m.entries hk)

/-- A name that is there may get its value before or after a mapping without it is merged in. -/
theorem insert_merge (hk : k ∈ m.keys) (hes : k ∉ es.map Prod.fst) :
    (m.insert k v).merge ⟨es⟩ = (m.merge ⟨es⟩).insert k v := by
  induction es generalizing m with
  | nil => rfl
  | cons e es ih =>
    obtain ⟨l, w⟩ := e
    obtain ⟨hne, hes⟩ := not_or.1 (mt List.mem_cons.2 hes)
    rw [merge_cons, merge_cons, insert_comm hk hne, ih (mem_keys_insert.2 (.inr hk)) hes]

/-- The last entry of a mapping is the last one that is merged. -/
theorem merge_insert (hn : n.Distinct) (m : Mapping α) (k : Text) (v : α) :
    m.merge (n.insert k v) = (m.merge n).insert k v := by
  obtain ⟨es⟩ := n
  induction es generalizing m with
  | nil => rfl
  | cons e es ih =>
    obtain ⟨l, w⟩ := e
    obtain ⟨hl, hes⟩ := List.nodup_cons.1 hn
    by_cases hlk : l = k
    · subst hlk
      have hput : (⟨(l, w) :: es⟩ : Mapping α).insert l v = ⟨(l, v) :: es⟩ := by
        simp [insert, put]
      have hmem : l ∈ (m.insert l w).keys := mem_keys_insert.2 (.inl rfl)
      rw [hput, merge_cons, merge_cons, ← insert_merge hmem hl, insert_insert_self]
    · have hput : (⟨(l, w) :: es⟩ : Mapping α).insert k v = ⟨(l, w) :: put k v es⟩ := by
        simp [insert, put, hlk]
      rw [hput, merge_cons, merge_cons]
      exact ih (m.insert l w) hes

/-- Mappings may be merged from the left or from the right, if the middle one repeats no name. -/
theorem merge_assoc (hn : n.Distinct) (m p : Mapping α) :
    m.merge (n.merge p) = (m.merge n).merge p := by
  obtain ⟨es⟩ := p
  induction es generalizing n with
  | nil => rfl
  | cons e es ih =>
    obtain ⟨k, v⟩ := e
    rw [merge_cons, merge_cons, ih (distinct_insert hn k v), merge_insert hn]

end Stencil.Mapping
