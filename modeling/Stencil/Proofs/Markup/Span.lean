import Stencil.Markup.Inline
/-! What is read up to a mark: it is on one line, nothing is lost around the mark, and a mark that
is there is found. -/
namespace Stencil.Markup

variable {mark s t u before after content : Text}

/-- A text of one or more characters on one line. -/
structure WithinLine (s : Text) : Prop where
  ne_nil : s ≠ []
  notMem : ↑ '\n' ∉ s

theorem isPrefixOf_append_newline (hmark : ↑ '\n' ∉ mark) (s t : Text) :
    mark.isPrefixOf (s ++ ↑ '\n' :: t) = mark.isPrefixOf s := by
  induction mark generalizing s with
  | nil => rfl
  | cons m mark ih =>
    obtain ⟨hm, hmark⟩ := Text.notMem_cons.1 hmark
    cases s with
    | nil =>
      have hne : (m == '\n') = false := beq_false_of_ne hm
      simp [List.isPrefixOf, hne]
    | cons c s => simp only [List.cons_append, List.isPrefixOf, ih hmark]

/-- What follows a mark at the beginning of a text. -/
def behind? (mark s : Text) : Option Text :=
  if mark.isPrefixOf s then some (s.drop mark.length) else none

theorem behind?_eq_some_iff : behind? mark s = some t ↔ s = mark ++ t := by
  unfold behind?
  constructor
  · intro h
    split at h
    · next hmark =>
      obtain rfl := Option.some.inj h
      exact (List.prefix_iff_eq_append.1 (List.isPrefixOf_iff_prefix.1 hmark)).symm
    · cases h
  · rintro rfl
    rw [if_pos (List.isPrefixOf_iff_prefix.2 (List.prefix_append mark t)), List.drop_left]

theorem behind?_append (mark t : Text) : behind? mark (mark ++ t) = some t :=
  behind?_eq_some_iff.2 rfl

theorem length_lt_of_behind? (hmark : mark ≠ []) (h : behind? mark s = some t) :
    t.length < s.length := by
  rw [behind?_eq_some_iff.1 h, List.length_append]
  exact Nat.lt_add_of_pos_left (List.length_pos_iff.2 hmark)

theorem behind?_cons_of_ne {c d : CodePoint} (hc : c ≠ d) (s : Text) :
    behind? (d :: mark) (c :: s) = none := by
  have hne : (d == c) = false := beq_false_of_ne (Ne.symm hc)
  rw [behind?, List.isPrefixOf, hne]
  rfl

theorem behind?_append_newline (hmark : ↑ '\n' ∉ mark) (s t : Text) :
    behind? mark (s ++ ↑ '\n' :: t) = (behind? mark s).map (· ++ ↑ '\n' :: t) := by
  unfold behind?
  rw [isPrefixOf_append_newline hmark]
  split
  · next h =>
    rw [List.drop_append_of_le_length (List.isPrefixOf_iff_prefix.1 h).length_le]
    rfl
  · rfl

/-- The two sides of a mark, with the mark between them, are the text. -/
theorem eq_of_breakOnLine (h : breakOnLine mark s = some (before, after)) :
    s = before ++ mark ++ after ∧ ↑ '\n' ∉ before := by
  induction s generalizing before with
  | nil => simp [breakOnLine] at h
  | cons c s ih =>
    simp only [breakOnLine] at h
    split at h
    · next hmark =>
      obtain ⟨rfl, rfl⟩ := Prod.mk.inj (Option.some.inj h)
      have hsplit := List.prefix_iff_eq_append.1 (List.isPrefixOf_iff_prefix.1 hmark)
      exact ⟨by rw [List.nil_append, hsplit], List.not_mem_nil⟩
    · split at h
      · cases h
      · next hc =>
        obtain ⟨⟨x, y⟩, hxy, h⟩ := Option.map_eq_some_iff.1 h
        obtain ⟨rfl, rfl⟩ := Prod.mk.inj h
        obtain ⟨hs, hx⟩ := ih hxy
        exact ⟨by rw [hs]; rfl, Text.notMem_cons.2 ⟨hc, hx⟩⟩

theorem eq_of_spanTo (h : spanTo mark s = some (content, after)) :
    s = content ++ mark ++ after ∧ WithinLine content := by
  cases s with
  | nil => cases h
  | cons c s =>
    simp only [spanTo] at h
    split at h
    · cases h
    · next hc =>
      obtain ⟨⟨x, y⟩, hxy, h⟩ := Option.map_eq_some_iff.1 h
      obtain ⟨rfl, rfl⟩ := Prod.mk.inj h
      obtain ⟨hs, hx⟩ := eq_of_breakOnLine hxy
      exact ⟨by rw [hs]; rfl, List.cons_ne_nil c x, Text.notMem_cons.2 ⟨hc, hx⟩⟩

/-- A mark on the line is found, or an earlier one is, and then the text behind the earlier one goes
on to the later one on the same line. -/
theorem exists_breakOnLine (hmark : WithinLine mark) (hu : ↑ '\n' ∉ u) (t : Text) :
    ∃ before v, breakOnLine mark (u ++ mark ++ t) = some (before, v ++ t) ∧ ↑ '\n' ∉ v := by
  induction u with
  | nil =>
    obtain ⟨m, rest, rfl⟩ := List.exists_cons_of_ne_nil hmark.ne_nil
    refine ⟨[], [], ?_, List.not_mem_nil⟩
    have hprefix : (m :: rest).isPrefixOf (m :: (rest ++ t)) :=
      List.isPrefixOf_iff_prefix.2 (List.prefix_append (m :: rest) t)
    have hdrop : (m :: (rest ++ t)).drop (m :: rest).length = t := List.drop_left
    simp only [List.nil_append, List.cons_append, breakOnLine, hprefix, if_true, hdrop]
  | cons c u ih =>
    obtain ⟨hc, hu⟩ := Text.notMem_cons.1 hu
    by_cases hprefix : mark.isPrefixOf (c :: (u ++ mark ++ t))
    · refine ⟨[], (c :: (u ++ mark)).drop mark.length, ?_, ?_⟩
      · have hlength : mark.length ≤ (c :: (u ++ mark)).length := by
          simp only [List.length_cons, List.length_append]
          omega
        have hdrop : (c :: (u ++ mark ++ t)).drop mark.length =
            (c :: (u ++ mark)).drop mark.length ++ t := List.drop_append_of_le_length hlength
        simp only [List.cons_append, breakOnLine, hprefix, if_true, hdrop]
      · intro hmem
        rcases List.mem_cons.1 (List.mem_of_mem_drop hmem) with hmem | hmem
        · exact hc hmem.symm
        · exact (List.mem_append.1 hmem).elim hu hmark.notMem
    · obtain ⟨before, v, hfound, hv⟩ := ih hu
      refine ⟨c :: before, v, ?_, hv⟩
      simp only [List.cons_append, breakOnLine, hprefix, if_false, hc, hfound,
        Option.map_some]
      rfl

theorem exists_spanTo (hmark : WithinLine mark) (hu : WithinLine u) (t : Text) :
    ∃ content v, spanTo mark (u ++ mark ++ t) = some (content, v ++ t) ∧ ↑ '\n' ∉ v := by
  obtain ⟨c, u, rfl⟩ := List.exists_cons_of_ne_nil hu.ne_nil
  obtain ⟨hc, hu⟩ := Text.notMem_cons.1 hu.notMem
  obtain ⟨before, v, hfound, hv⟩ := exists_breakOnLine hmark hu t
  refine ⟨c :: before, v, ?_, hv⟩
  simp only [List.cons_append, spanTo, hc, if_false, hfound, Option.map_some]

/-- What follows the line of a text makes no difference to what is read in it. -/
theorem breakOnLine_append_newline (hmark : WithinLine mark) (s t : Text) :
    breakOnLine mark (s ++ ↑ '\n' :: t) =
      (breakOnLine mark s).map fun (before, after) => (before, after ++ ↑ '\n' :: t) := by
  induction s with
  | nil =>
    have hprefix : mark.isPrefixOf (↑ '\n' :: t) = false := by
      obtain ⟨m, rest, rfl⟩ := List.exists_cons_of_ne_nil hmark.ne_nil
      exact isPrefixOf_append_newline hmark.notMem [] t
    simp [breakOnLine, hprefix]
  | cons c s ih =>
    have hprefix := isPrefixOf_append_newline hmark.notMem (c :: s) t
    rw [List.cons_append] at hprefix
    simp only [List.cons_append, breakOnLine, hprefix, ih]
    split
    · next hfound =>
      have hlength : mark.length ≤ (c :: s).length :=
        (List.isPrefixOf_iff_prefix.1 hfound).length_le
      rw [← List.cons_append, List.drop_append_of_le_length hlength]
      rfl
    · split
      · rfl
      · cases breakOnLine mark s <;> rfl

theorem spanTo_append_newline (hmark : WithinLine mark) (s t : Text) :
    spanTo mark (s ++ ↑ '\n' :: t) =
      (spanTo mark s).map fun (content, after) => (content, after ++ ↑ '\n' :: t) := by
  cases s with
  | nil => simp [spanTo]
  | cons c s =>
    simp only [List.cons_append, spanTo, breakOnLine_append_newline hmark]
    split
    · rfl
    · cases breakOnLine mark s <;> rfl

/-- A mark that ends in a character it has nowhere else does not start within the text before it, if
its last two characters are not together in that text. -/
theorem not_prefix_of_last {m : Text} {x d : CodePoint} (hd : d ∉ m ++ [x]) (hu : u ≠ [])
    (hpair : ¬ [x, d] <:+: u) (t : Text) : ¬ m ++ [x, d] <+: u ++ (m ++ [x, d] ++ t) := by
  rintro ⟨rest, h⟩
  have hmark : m ++ [x, d] = m ++ [x] ++ [d] := by simp
  rcases List.append_eq_append_iff.1 h with ⟨v, hv, -⟩ | ⟨v, hv, hrest⟩
  · exact hpair ⟨m, v, hv.symm⟩
  · rcases List.eq_nil_or_concat v with rfl | ⟨w, e, rfl⟩
    · rw [List.append_nil] at hv
      exact hpair ⟨m, [], by rw [List.append_nil, hv]⟩
    · -- what is left of the mark behind `u` is a beginning of it that has the last character
      rw [List.concat_eq_append] at hv hrest
      rw [hmark, ← List.append_assoc] at hv
      obtain ⟨hfront, hlast⟩ := List.append_inj' hv rfl
      obtain rfl := List.cons.inj hlast |>.1
      have hlength := congrArg List.length hfront
      have hpos := List.length_pos_iff.2 hu
      have hle : (w ++ [d]).length ≤ (m ++ [x]).length := by
        simp only [List.length_append, List.length_singleton] at hlength ⊢
        omega
      have hshort : w ++ [d] <+: m ++ [x] := by
        refine List.prefix_of_prefix_length_le (List.prefix_append _ rest) ?_ hle
        rw [← hrest, hmark, List.append_assoc]
        exact List.prefix_append _ _
      exact hd (hshort.subset (List.mem_append_right w List.mem_cons_self))

theorem breakOnLine_of_last {m : Text} {x d : CodePoint} (hmark : mark = m ++ [x, d])
    (hd : d ∉ m ++ [x]) (hu : ↑ '\n' ∉ u) (hpair : ¬ [x, d] <:+: u) (t : Text) :
    breakOnLine mark (u ++ mark ++ t) = some (u, t) := by
  subst hmark
  induction u with
  | nil =>
    obtain ⟨c, rest, hcons⟩ : ∃ c rest, m ++ [x, d] ++ t = c :: rest := by
      cases m with
      | nil => exact ⟨_, _, rfl⟩
      | cons c m => exact ⟨_, _, rfl⟩
    have hfound := behind?_append (m ++ [x, d]) t
    rw [hcons, behind?] at hfound
    split at hfound
    · next hprefix =>
      rw [List.nil_append, hcons, breakOnLine, if_pos hprefix, Option.some.inj hfound]
    · cases hfound
  | cons c u ih =>
    obtain ⟨hc, hu⟩ := Text.notMem_cons.1 hu
    have hnot := not_prefix_of_last hd (List.cons_ne_nil c u) hpair t
    rw [← List.isPrefixOf_iff_prefix, List.cons_append, ← List.append_assoc] at hnot
    have hrest := ih hu fun h => hpair (h.trans (List.suffix_cons c u).isInfix)
    rw [List.cons_append, List.cons_append, breakOnLine, if_neg hnot, if_neg hc, hrest]
    rfl

end Stencil.Markup
