import Stencil.Template.Piece
/-! How a source is divided into pieces, and how two sources one after the other are. -/
namespace Stencil

namespace Text

variable {c : CodePoint} {s t before after : Text}

theorem breakPair_cons_of_ne {a b : CodePoint} (h : ¬ (a = c ∧ b = c)) (s : Text) :
    breakPair c (a :: b :: s) = (breakPair c (b :: s)).map fun r => (a :: r.1, r.2) := by
  simp only [breakPair, h, if_false]

/-- A pair is found at the same place whatever follows. -/
theorem breakPair_append_of_some (h : breakPair c s = some (before, after)) (t : Text) :
    breakPair c (s ++ t) = some (before, after ++ t) := by
  induction s generalizing before with
  | nil => simp [breakPair] at h
  | cons a s ih =>
    cases s with
    | nil => simp [breakPair] at h
    | cons b s =>
      by_cases hab : a = c ∧ b = c
      · obtain ⟨rfl, rfl⟩ := hab
        rw [breakPair_pair] at h
        obtain ⟨rfl, rfl⟩ : [] = before ∧ s = after := by simpa using h
        exact breakPair_pair b (s ++ t)
      · rw [breakPair_cons_of_ne hab] at h
        obtain ⟨⟨x, y⟩, hxy, hr⟩ := Option.map_eq_some_iff.1 h
        obtain ⟨rfl, rfl⟩ : a :: x = before ∧ y = after := by simpa using hr
        rw [List.cons_append, List.cons_append, breakPair_cons_of_ne hab, ← List.cons_append,
          ih hxy]
        rfl

/-- A text without a pair does not hide one in what follows, unless the two halves of a pair meet
at the seam. -/
theorem breakPair_append_of_none (h : breakPair c s = none)
    (hseam : ¬ (s.getLast? = some c ∧ t.head? = some c)) :
    breakPair c (s ++ t) = (breakPair c t).map fun r => (s ++ r.1, r.2) := by
  induction s with
  | nil => simp
  | cons a s ih =>
    cases s with
    | nil =>
      cases t with
      | nil => simp [breakPair]
      | cons b t => exact breakPair_cons_of_ne (by simpa using hseam) t
    | cons b s =>
      have hab : ¬ (a = c ∧ b = c) := by
        rintro ⟨rfl, rfl⟩
        simp [breakPair_pair] at h
      rw [breakPair_cons_of_ne hab, Option.map_eq_none_iff] at h
      rw [List.getLast?_cons_cons] at hseam
      rw [List.cons_append, List.cons_append, breakPair_cons_of_ne hab, ← List.cons_append,
        ih h hseam, Option.map_map]
      rfl

/-- No pair of `c` ends before the one that is found, not even with its first half. -/
theorem not_pair_of_breakPair (h : breakPair c s = some (before, after)) :
    ¬ [c, c] <:+: before ++ [c] := by
  induction s generalizing before with
  | nil => simp [breakPair] at h
  | cons a s ih =>
    cases s with
    | nil => simp [breakPair] at h
    | cons b s =>
      by_cases hab : a = c ∧ b = c
      · obtain ⟨rfl, rfl⟩ := hab
        rw [breakPair_pair] at h
        obtain ⟨rfl, -⟩ : [] = before ∧ s = after := by simpa using h
        intro hpair
        simpa using hpair.length_le
      · rw [breakPair_cons_of_ne hab] at h
        obtain ⟨⟨x, y⟩, hxy, hr⟩ := Option.map_eq_some_iff.1 h
        obtain ⟨rfl, rfl⟩ : a :: x = before ∧ y = after := by simpa using hr
        have htail : b :: s = x ++ c :: c :: y := eq_of_breakPair hxy
        have hfirst : (x ++ [c]).head? = some b := by
          have hb := congrArg List.head? htail
          cases x <;> simpa using hb.symm
        intro hpair
        rw [List.cons_append, List.infix_cons_iff] at hpair
        rcases hpair with hprefix | hinfix
        · obtain ⟨rfl, hc⟩ := List.cons_prefix_cons.1 hprefix
          obtain ⟨u, hu⟩ := hc
          rw [← hu] at hfirst
          exact hab ⟨rfl, by simpa using hfirst.symm⟩
        · exact ih hxy hinfix

/-- What stands around the first pair of `c`. -/
theorem breakPair_eq_some_iff :
    breakPair c s = some (before, after) ↔
      s = before ++ c :: c :: after ∧ ¬ [c, c] <:+: before ++ [c] := by
  constructor
  · exact fun h => ⟨eq_of_breakPair h, not_pair_of_breakPair h⟩
  · rintro ⟨rfl, hpair⟩
    have hnone : breakPair c before = none := by
      rw [breakPair_eq_none_iff]
      exact fun h => hpair (h.trans (List.prefix_append _ _).isInfix)
    have hseam : ¬ (before.getLast? = some c ∧ (c :: c :: after).head? = some c) := by
      rintro ⟨hlast, -⟩
      obtain ⟨u, rfl⟩ := List.getLast?_eq_some_iff.1 hlast
      exact hpair ⟨u, [], by simp⟩
    rw [breakPair_append_of_none hnone hseam, breakPair_pair]
    simp

end Text

namespace Piece

variable {a b source before rest content after : Text} {ps qs : List Piece}

theorem divide_of_text (h : source.breakPair '\x7b' = none) :
    divide source = consText source [] := by
  rw [divide]
  split
  · rfl
  · next hb => rw [h] at hb; cases hb

@[simp] theorem divide_nil : divide [] = [] := divide_of_text rfl

theorem divide_of_unclosed (h : source.breakPair '\x7b' = some (before, rest))
    (h' : rest.breakPair '\x7d' = none) : divide source = consText before [.unclosed rest] := by
  rw [divide]
  split
  · next hb => rw [h] at hb; cases hb
  · next hb =>
    rw [h] at hb
    obtain ⟨rfl, rfl⟩ := Prod.mk.inj (Option.some.inj hb)
    split
    · rfl
    · next hc => rw [h'] at hc; cases hc

theorem divide_of_tag (h : source.breakPair '\x7b' = some (before, rest))
    (h' : rest.breakPair '\x7d' = some (content, after)) :
    divide source = consText before (.tag content :: divide after) := by
  rw [divide]
  split
  · next hb => rw [h] at hb; cases hb
  · next hb =>
    rw [h] at hb
    obtain ⟨rfl, rfl⟩ := Prod.mk.inj (Option.some.inj hb)
    split
    · next hc => rw [h'] at hc; cases hc
    · next hc =>
      rw [h'] at hc
      obtain ⟨rfl, rfl⟩ := Prod.mk.inj (Option.some.inj hc)
      rfl

/-- Pieces one after the other, where text that meets text becomes one piece. -/
def join : List Piece → List Piece → List Piece
  | [], qs => qs
  | [.text s], .text t :: qs => .text (s ++ t) :: qs
  | p :: ps, qs => p :: join ps qs

/-- Pieces are joined as they are, or the text at the seam is made one. -/
theorem join_cases (ps qs : List Piece) :
    join ps qs = ps ++ qs ∨ ∃ xs s t ys, ps = xs ++ [.text s] ∧ qs = .text t :: ys ∧
      join ps qs = xs ++ .text (s ++ t) :: ys := by
  fun_induction join ps qs with
  | case1 qs => exact .inl rfl
  | case2 s t qs => exact .inr ⟨[], s, t, qs, rfl, rfl, rfl⟩
  | case3 p ps qs _ ih =>
    rcases ih with h | ⟨xs, s, t, ys, rfl, rfl, h⟩
    · exact .inl (by rw [h]; rfl)
    · exact .inr ⟨p :: xs, s, t, ys, rfl, rfl, by rw [h]; rfl⟩

/-- A tag is never joined to what stands in front of it. -/
theorem join_tag (ps : List Piece) (content : Text) (qs : List Piece) :
    join ps (.tag content :: qs) = ps ++ .tag content :: qs := by
  rcases join_cases ps (.tag content :: qs) with h | ⟨_, _, _, _, _, h, _⟩
  · exact h
  · cases h

theorem join_cons_tag (content : Text) (ps qs : List Piece) :
    join (.tag content :: ps) qs = .tag content :: join ps qs := by
  rw [join]
  simp

theorem join_consText_tag (s content : Text) (ps qs : List Piece) :
    join (consText s (.tag content :: ps)) qs = consText s (.tag content :: join ps qs) := by
  cases s with
  | nil => exact join_cons_tag content ps qs
  | cons c s =>
    simp only [consText, List.isEmpty_cons, Bool.false_eq_true, if_false]
    rw [join, join_cons_tag]
    simp

/-- Text in front of a division is added to the text that the division starts with. -/
theorem join_consText_nil (s t : Text) (h : ∀ u rs, qs ≠ .text u :: rs) :
    join (consText s []) (consText t qs) = consText (s ++ t) qs := by
  cases s with
  | nil => rfl
  | cons c s =>
    cases t with
    | nil =>
      cases qs with
      | nil => simp [consText, join]
      | cons q qs =>
        cases q with
        | text u => exact absurd rfl (h u qs)
        | tag content => simp [consText, join]
        | unclosed rest => simp [consText, join]
    | cons d t => simp [consText, join]

theorem divide_append_of_text (h : a.breakPair '\x7b' = none)
    (hseam : ¬ (a.getLast? = some ↑ '\x7b' ∧ b.head? = some ↑ '\x7b')) :
    divide (a ++ b) = join (consText a []) (divide b) := by
  have hab := Text.breakPair_append_of_none h hseam
  cases hb : b.breakPair '\x7b' with
  | none =>
    rw [hb, Option.map_none] at hab
    rw [divide_of_text hab, divide_of_text hb]
    exact (join_consText_nil _ _ (by simp)).symm
  | some r =>
    obtain ⟨before, rest⟩ := r
    rw [hb, Option.map_some] at hab
    cases hr : rest.breakPair '\x7d' with
    | none =>
      rw [divide_of_unclosed hab hr, divide_of_unclosed hb hr]
      exact (join_consText_nil _ _ (by simp)).symm
    | some r =>
      obtain ⟨content, after⟩ := r
      rw [divide_of_tag hab hr, divide_of_tag hb hr]
      exact (join_consText_nil _ _ (by simp)).symm

theorem unclosed_mem_consText {s rest : Text} :
    .unclosed rest ∈ consText s ps ↔ .unclosed rest ∈ ps := by
  unfold consText
  split <;> simp

/-- What is left of a text after a pair ends as the text does. -/
theorem getLast?_of_breakPair {c d : CodePoint} {s : Text} (h : s.breakPair c = some (before, after))
    (hd : after.getLast? = some d) : s.getLast? = some d := by
  rw [Text.eq_of_breakPair h]
  cases after with
  | nil => cases hd
  | cons e after => simpa using hd

/-- Two sources one after the other are divided as they are by themselves, text at the seam being
made one, if all tags of the first are closed and no brace of the first meets one of the second. -/
theorem divide_append (hclosed : ∀ rest, .unclosed rest ∉ divide a)
    (hseam : ¬ (a.getLast? = some ↑ '\x7b' ∧ b.head? = some ↑ '\x7b')) :
    divide (a ++ b) = join (divide a) (divide b) := by
  fun_induction divide a with
  | case1 a h => exact divide_append_of_text h hseam
  | case2 a before rest h h' =>
    exact absurd (unclosed_mem_consText.2 List.mem_cons_self) (hclosed rest)
  | case3 a before rest h content after h' _ _ ih =>
    have hab := Text.breakPair_append_of_some h b
    have hrb := Text.breakPair_append_of_some h' b
    have hlast : ¬ (after.getLast? = some ↑ '\x7b' ∧ b.head? = some ↑ '\x7b') :=
      fun hs => hseam ⟨getLast?_of_breakPair h (getLast?_of_breakPair h' hs.1), hs.2⟩
    have hafter : ∀ rest, .unclosed rest ∉ divide after :=
      fun r hr => hclosed r (unclosed_mem_consText.2 (List.mem_cons_of_mem _ hr))
    rw [divide_of_tag hab hrb, ih hafter hlast, join_consText_tag]

end Piece
end Stencil
