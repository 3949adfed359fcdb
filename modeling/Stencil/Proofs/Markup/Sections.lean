import Stencil.Markup.Block
import Stencil.Proofs.Template.Respelling
/-! The sections of a text between its runs of line feeds, and what is kept of them without the blanks
around them. Where two texts are joined by a run, nothing of either is lost, whatever blanks stand at
the seam. -/
namespace Stencil

namespace Text

variable {s t : Text}

/-- A text is what is left of it between blanks. -/
theorem exists_surrounded (s : Text) :
    ∃ l r, (∀ c ∈ l, isBlank c) ∧ (∀ c ∈ r, isBlank c) ∧ s = l ++ strip s ++ r := by
  have hblank (u : Text) : ∀ c ∈ u.takeWhile isBlank, isBlank c := by
    exact List.all_eq_true.1 List.all_takeWhile
  refine ⟨s.takeWhile isBlank, ((stripStart s).reverse.takeWhile isBlank).reverse, hblank s, ?_, ?_⟩
  · intro c hc
    exact hblank _ c (List.mem_reverse.1 hc)
  · have hend : stripStart s =
        strip s ++ ((stripStart s).reverse.takeWhile isBlank).reverse := by
      rw [strip, stripEnd, ← List.reverse_append, List.takeWhile_append_dropWhile,
        List.reverse_reverse]
    rw [List.append_assoc, ← hend]
    exact List.takeWhile_append_dropWhile.symm

/-- Blanks at the ends of a text make no difference to what is left of it. -/
theorem strip_around {l r : Text} (hl : ∀ c ∈ l, isBlank c) (hr : ∀ c ∈ r, isBlank c) (s : Text) :
    strip (l ++ s ++ r) = strip s := by
  obtain ⟨l', r', hl', hr', hs⟩ := exists_surrounded s
  have hsplit : l ++ s ++ r = (l ++ l') ++ strip s ++ (r' ++ r) := by
    conv_lhs => rw [hs]
    simp only [List.append_assoc]
  rw [hsplit]
  apply strip_surrounded _ _ (trimmed_strip s)
  · intro c hc
    exact (List.mem_append.1 hc).elim (hl c) (hl' c)
  · intro c hc
    exact (List.mem_append.1 hc).elim (hr' c) (hr c)

theorem strip_eq_nil_iff : strip s = [] ↔ ∀ c ∈ s, isBlank c := by
  constructor
  · intro h
    obtain ⟨l, r, hl, hr, hs⟩ := exists_surrounded s
    rw [h, List.append_nil] at hs
    intro c hc
    rw [hs] at hc
    exact (List.mem_append.1 hc).elim (hl c) (hr c)
  · intro h
    have hnil := strip_around h (r := []) nofun []
    simpa [strip, stripStart, stripEnd] using hnil

end Text

namespace Markup

variable {s t u : Text} {us vs : List Text}

/-- What is kept of the sections of a text: each without the blanks around it, if it is not blank. -/
def kept (sections : List Text) : List Text :=
  (sections.map Text.strip).filter fun p => !p.isEmpty

theorem kept_append (us vs : List Text) : kept (us ++ vs) = kept us ++ kept vs := by
  simp only [kept, List.map_append, List.filter_append]

theorem kept_cons (u : Text) (us : List Text) : kept (u :: us) = kept [u] ++ kept us :=
  kept_append [u] us

theorem kept_single_congr (h : u.strip = s.strip) : kept [u] = kept [s] := by
  simp only [kept, List.map_singleton, h]

theorem kept_single_newline (s : Text) : kept ['\n' :: s] = kept [s] := by
  apply kept_single_congr
  simpa using Text.strip_around (l := [↑ '\n']) (r := []) (by simp [Text.isBlank]) nofun s

theorem kept_eq_nil_iff : kept us = [] ↔ ∀ u ∈ us, ∀ c ∈ u, Text.isBlank c := by
  simp [kept, List.filter_eq_nil_iff, Text.strip_eq_nil_iff]

theorem paragraphs_of_none (h : s.breakPair '\n' = none) : paragraphs s = [s] := by
  rw [paragraphs]
  split
  · rfl
  · next hs => rw [h] at hs; cases hs

theorem paragraphs_of_some {before after : Text} (h : s.breakPair '\n' = some (before, after)) :
    paragraphs s = before :: paragraphs after := by
  rw [paragraphs]
  split
  · next hs => rw [h] at hs; cases hs
  · next hs =>
    rw [h] at hs
    obtain ⟨rfl, rfl⟩ := Prod.mk.inj (Option.some.inj hs)
    rfl

/-- A line feed in front of a text does not change what is kept of it, even if it makes a pair. -/
theorem kept_paragraphs_newline (s : Text) :
    kept (paragraphs (↑ '\n' :: s)) = kept (paragraphs s) := by
  induction s with
  | nil =>
    rw [paragraphs_of_none rfl, paragraphs_of_none rfl]
    exact kept_single_newline []
  | cons d s ih =>
    by_cases hd : d = '\n'
    · subst hd
      rw [paragraphs_of_some (Text.breakPair_pair '\n' s), ih, kept_cons]
      rfl
    · have hbreak : Text.breakPair '\n' (↑ '\n' :: d :: s) =
          (Text.breakPair '\n' (d :: s)).map fun r => (↑ '\n' :: r.1, r.2) :=
        Text.breakPair_cons_of_ne (fun h => hd h.2) s
      cases hs : Text.breakPair '\n' (d :: s) with
      | none =>
        rw [hs] at hbreak
        rw [paragraphs_of_none hbreak, paragraphs_of_none hs]
        exact kept_single_newline (d :: s)
      | some found =>
        rw [hs] at hbreak
        rw [paragraphs_of_some hbreak, paragraphs_of_some hs, kept_cons, kept_single_newline,
          ← kept_cons]

theorem kept_paragraphs_newlines (n : Nat) (s : Text) :
    kept (paragraphs ((List.replicate n '\n' : Text) ++ s)) = kept (paragraphs s) := by
  induction n with
  | zero => rfl
  | succ n ih => rw [List.replicate_succ, List.cons_append, kept_paragraphs_newline, ih]

/-- Behind a text without a pair, the first pair is that of the seam, or one line feed earlier. -/
theorem kept_paragraphs_append_of_not_pair (hs : ¬ [↑ '\n', ↑ '\n'] <:+: s) (t : Text) :
    kept (paragraphs (s ++ ↑ '\n' :: ↑ '\n' :: t)) = kept [s] ++ kept (paragraphs t) := by
  by_cases hlast : s.getLast? = some ↑ '\n'
  · obtain ⟨u, rfl⟩ := List.getLast?_eq_some_iff.1 hlast
    have hseam : u ++ (['\n'] : Text) ++ ↑ '\n' :: ↑ '\n' :: t =
        u ++ ↑ '\n' :: ↑ '\n' :: ↑ '\n' :: t := by simp
    have hblank : Text.strip u = Text.strip (u ++ (['\n'] : Text)) := by
      simpa using (Text.strip_around (l := []) (r := [↑ '\n']) nofun (by simp [Text.isBlank]) u).symm
    rw [hseam, paragraphs_of_some (Text.breakPair_eq_some_iff.2 ⟨rfl, hs⟩), kept_cons,
      kept_paragraphs_newline, kept_single_congr hblank]
  · have hpair : ¬ [↑ '\n', ↑ '\n'] <:+: s ++ (['\n'] : Text) := by
      apply Text.not_pair_append hs
      · intro h
        simpa using h.length_le
      · intro h
        exact hlast h.1
    rw [paragraphs_of_some (Text.breakPair_eq_some_iff.2 ⟨rfl, hpair⟩), kept_cons]

theorem kept_paragraphs_append (s t : Text) :
    kept (paragraphs (s ++ ↑ '\n' :: ↑ '\n' :: t)) = kept (paragraphs s) ++ kept (paragraphs t) := by
  induction s using paragraphs.induct with
  | case1 s hs =>
    rw [paragraphs_of_none hs]
    exact kept_paragraphs_append_of_not_pair (Text.breakPair_eq_none_iff.1 hs) t
  | case2 s before after hs _ ih =>
    calc kept (paragraphs (s ++ ↑ '\n' :: ↑ '\n' :: t))
        = kept (before :: paragraphs (after ++ ↑ '\n' :: ↑ '\n' :: t)) := by
          rw [paragraphs_of_some (Text.breakPair_append_of_some hs _)]
      _ = kept [before] ++ (kept (paragraphs after) ++ kept (paragraphs t)) := by rw [kept_cons, ih]
      _ = kept (paragraphs s) ++ kept (paragraphs t) := by
          rw [paragraphs_of_some hs, kept_cons before (paragraphs after), List.append_assoc]

/-- The sections of a text are what stands between its runs of two or more line feeds: no section has
such a run in it, and none has a line feed next to one. -/
inductive Sections : Text → List Text → Prop where
  | last {s : Text} (single : ¬ [↑ '\n', ↑ '\n'] <:+: s) : Sections s [s]
  | run {s u t : Text} {us : List Text} (n : Nat)
    (divided : s = u ++ ((List.replicate (n + 2) '\n' : Text) ++ t)) (single : ¬ [↑ '\n', ↑ '\n'] <:+: u)
    (before : u.getLast? ≠ some ↑ '\n') (after : t.head? ≠ some ↑ '\n') (rest : Sections t us) :
    Sections s (u :: us)

theorem breakPair_run {n : Nat} (hu : ¬ [↑ '\n', ↑ '\n'] <:+: u) (hlast : u.getLast? ≠ some ↑ '\n') :
    Text.breakPair '\n' (u ++ ((List.replicate (n + 2) '\n' : Text) ++ t)) =
      some (u, (List.replicate n '\n' : Text) ++ t) := by
  refine Text.breakPair_eq_some_iff.2 ⟨rfl, ?_⟩
  apply Text.not_pair_append hu
  · intro h
    simpa using h.length_le
  · intro h
    exact hlast h.1

theorem dropWhile_run {n : Nat} (ht : t.head? ≠ some ↑ '\n') :
    ((List.replicate n '\n' : Text) ++ t).dropWhile (· = ↑ '\n') = t := by
  rw [List.dropWhile_append_of_pos (by simp)]
  cases t with
  | nil => rfl
  | cons c t =>
    have hc : c ≠ '\n' := by simpa using ht
    rw [List.dropWhile_cons_of_neg (by simpa using hc)]

theorem exists_sections (s : Text) : ∃ us, Sections s us := by
  induction hlength : s.length using Nat.strongRecOn generalizing s with
  | ind n ih =>
    subst hlength
    cases hs : Text.breakPair '\n' s with
    | none => exact ⟨[s], .last (Text.breakPair_eq_none_iff.1 hs)⟩
    | some found =>
      obtain ⟨u, after⟩ := found
      obtain ⟨hdivided, hpair⟩ := Text.breakPair_eq_some_iff.1 hs
      -- the run goes on for as long as there are line feeds
      obtain ⟨k, hk⟩ : ∃ k, after.takeWhile (· = ↑ '\n') = (List.replicate k '\n' : Text) := by
        refine ⟨_, List.eq_replicate_iff.2 ⟨rfl, ?_⟩⟩
        intro c hc
        simpa using List.all_eq_true.1 List.all_takeWhile c hc
      have hafter : after = (List.replicate k '\n' : Text) ++ after.dropWhile (· = ↑ '\n') := by
        rw [← hk, List.takeWhile_append_dropWhile]
      have hshort : (after.dropWhile (· = ↑ '\n')).length < s.length :=
        Nat.lt_of_le_of_lt (List.dropWhile_suffix _).length_le (Text.length_lt_of_breakPair hs)
      obtain ⟨us, hus⟩ := ih _ hshort _ rfl
      refine ⟨u :: us, .run k ?_ ?_ ?_ ?_ hus⟩
      · rw [hdivided, List.replicate_succ, List.replicate_succ, List.cons_append, List.cons_append,
          ← hafter]
      · intro h
        exact hpair (h.trans (List.prefix_append u _).isInfix)
      · intro hlast
        obtain ⟨v, rfl⟩ := List.getLast?_eq_some_iff.1 hlast
        exact hpair ⟨v, [], by simp⟩
      · intro hhead
        have hnot := List.head?_dropWhile_not (· = ↑ '\n') after
        rw [hhead] at hnot
        simp at hnot

theorem Sections.unique (hu : Sections s us) (hv : Sections s vs) : us = vs := by
  induction hu generalizing vs with
  | last hsingle =>
    cases hv with
    | last => rfl
    | run n hs hu hlast =>
      have hbreak := hs ▸ breakPair_run (n := n) hu hlast
      rw [Text.breakPair_eq_none_iff.2 hsingle] at hbreak
      cases hbreak
  | run n hs hu hlast hhead _ ih =>
    have hbreak := hs ▸ breakPair_run (n := n) hu hlast
    cases hv with
    | last hsingle =>
      rw [Text.breakPair_eq_none_iff.2 hsingle] at hbreak
      cases hbreak
    | run n' hs' hu' hlast' hhead' hrest' =>
      have hbreak' := hs' ▸ breakPair_run (n := n') hu' hlast'
      obtain ⟨rfl, hafter⟩ := Prod.mk.inj (Option.some.inj (hbreak.symm.trans hbreak'))
      have hdrop := congrArg (List.dropWhile (· = ↑ '\n')) hafter
      rw [dropWhile_run hhead, dropWhile_run hhead'] at hdrop
      subst hdrop
      rw [ih hrest']

/-- The division at pairs keeps the same of a text as that at whole runs. -/
theorem Sections.kept_eq (h : Sections s us) : kept (paragraphs s) = kept us := by
  induction h with
  | last hsingle => rw [paragraphs_of_none (Text.breakPair_eq_none_iff.2 hsingle)]
  | @run s u t us n hs hsingle _ _ _ ih =>
    have hsplit : s = u ++ ↑ '\n' :: ↑ '\n' :: ((List.replicate n '\n' : Text) ++ t) := hs
    rw [hsplit, kept_paragraphs_append_of_not_pair hsingle, kept_paragraphs_newlines, ih, ← kept_cons]

end Markup
end Stencil
