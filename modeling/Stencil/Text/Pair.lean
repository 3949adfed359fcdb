import Stencil.Text
/-! The first place where a character stands twice in a row: the delimiters of tags and of bold
text are such pairs. -/
namespace Stencil.Text

/-- What stands before and after the first `cc` of a text. -/
def breakPair (c : CodePoint) : Text → Option (Text × Text)
  | a :: b :: s =>
    if a = c ∧ b = c then some ([], s)
    else (breakPair c (b :: s)).map fun (before, after) => (a :: before, after)
  | _ => none

variable {c : CodePoint} {s before after : Text}

theorem breakPair_pair (c : CodePoint) (s : Text) : breakPair c (c :: c :: s) = some ([], s) := by
  simp [breakPair]

/-- Nothing is lost around the pair. -/
theorem eq_of_breakPair (h : breakPair c s = some (before, after)) :
    s = before ++ c :: c :: after := by
  induction s generalizing before with
  | nil => simp [breakPair] at h
  | cons a s ih =>
    cases s with
    | nil => simp [breakPair] at h
    | cons b s =>
      simp only [breakPair] at h
      split at h
      · next hab =>
        obtain ⟨rfl, rfl⟩ : [] = before ∧ s = after := by simpa using h
        simp [hab.1, hab.2]
      · obtain ⟨⟨x, y⟩, hxy, h⟩ := Option.map_eq_some_iff.1 h
        obtain ⟨rfl, rfl⟩ : a :: x = before ∧ y = after := by simpa using h
        simp [ih hxy]

theorem length_lt_of_breakPair (h : breakPair c s = some (before, after)) :
    after.length < s.length := by
  rw [eq_of_breakPair h]
  simp only [List.length_append, List.length_cons]
  omega

/-- There is no pair to find exactly when no two neighbours are both `c`. -/
theorem breakPair_eq_none_iff : breakPair c s = none ↔ ¬ [c, c] <:+: s := by
  induction s with
  | nil => simp [breakPair]
  | cons a s ih =>
    cases s with
    | nil => simp [breakPair, List.infix_cons_iff]
    | cons b s =>
      simp only [breakPair]
      split
      · next hab =>
        obtain ⟨rfl, rfl⟩ := hab
        simp only [reduceCtorEq, false_iff, Classical.not_not]
        exact ⟨[], s, rfl⟩
      · next hab =>
        rw [Option.map_eq_none_iff, ih, @List.infix_cons_iff _ [c, c] a]
        simp only [List.cons_prefix_cons, not_or]
        constructor
        · intro h
          exact ⟨fun ⟨ha, hb, _⟩ => hab ⟨ha.symm, hb.symm⟩, h⟩
        · exact fun h => h.2

end Stencil.Text
