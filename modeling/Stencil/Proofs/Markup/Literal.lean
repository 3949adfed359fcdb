import Stencil.Proofs.Markup.Inline
/-! Text that stays as it is: conversion makes a text with markup wider, so that it leaves exactly
the texts without any as they are. -/
namespace Stencil.Markup

variable {lineBreak s t : Text}

/-- The length of a text after its line feeds are replaced. -/
def width (lineBreak s : Text) : Nat := (s.replace '\n' lineBreak).length

theorem width_append (lineBreak s t : Text) :
    width lineBreak (s ++ t) = width lineBreak s + width lineBreak t := by
  rw [width, Text.replace_append, List.length_append]
  rfl

theorem width_of_notMem (h : ↑ '\n' ∉ s) : width lineBreak s = s.length := by
  rw [width, Text.replace_of_notMem h]

/-- Where written markup is wider than its source, a text gets wider by each markup in it. -/
theorem Rule.Reads.not_occurs_or_width_lt {α : Type} {r : Rule α} {source write : α → Text}
    {kind : α → Prop} (h : r.Reads source kind)
    (hwide : ∀ x, width lineBreak (source x) < width lineBreak (write x)) (s : Text) :
    ¬ r.Occurs s ∨ width lineBreak s < width lineBreak (r.rewrite write s) := by
  induction s using r.induction with
  | nil =>
    left
    rintro ⟨t, ht, hread⟩
    obtain rfl := List.suffix_nil.1 ht
    rw [Rule.read_nil] at hread
    cases hread
  | char c s hread ih =>
    rcases ih with ih | ih
    · left
      rintro ⟨t, ht, hfound⟩
      rcases List.suffix_cons_iff.1 ht with rfl | ht
      · rw [hread] at hfound
        cases hfound
      · exact ih ⟨t, ht, hfound⟩
    · right
      have hsplit (u : Text) : width lineBreak (c :: u) =
          width lineBreak [c] + width lineBreak u := width_append lineBreak [c] u
      rw [Rule.rewrite_of_none hread, hsplit s, hsplit (r.rewrite write s)]
      omega
  | mark s x after hread ih =>
    right
    obtain ⟨rfl, -⟩ := h.spelled hread
    have hx := hwide x
    have hafter : width lineBreak after ≤ width lineBreak (r.rewrite write after) := by
      rcases ih with ih | ih
      · exact Nat.le_of_eq (congrArg (width lineBreak) (Rule.rewrite_of_not_occurs ih).symm)
      · omega
    rw [Rule.rewrite_of_read hread, width_append, width_append]
    omega

theorem width_boldSource_lt (lineBreak content : Text) :
    width lineBreak (boldSource content) < width lineBreak (boldHtml content) := by
  have hmark : width lineBreak boldMark = 2 := by
    rw [width_of_notMem (by decide)]
    rfl
  have hopening : width lineBreak strongOpening = 8 := by
    rw [width_of_notMem (by decide)]
    rfl
  rw [boldHtml_eq, boldSource]
  simp only [width_append, hmark, hopening]
  omega

theorem width_source_lt (lineBreak : Text) (l : Link) :
    width lineBreak l.source < width lineBreak l.html := by
  have hsource : l.source = ([↑ '['] : Text) ++ l.label ++ labelEnd ++ l.url ++ urlEnd := rfl
  have hmarks : width lineBreak ['['] + width lineBreak labelEnd + width lineBreak urlEnd = 4 := by
    simp only [width_of_notMem (show ↑ '\n' ∉ ([↑ '['] : Text) by decide),
      width_of_notMem withinLine_labelEnd.notMem, width_of_notMem withinLine_urlEnd.notMem]
    rfl
  have hopening : width lineBreak anchorOpening = 9 := by
    rw [width_of_notMem (by decide)]
    rfl
  rw [hsource, Link.html_eq]
  simp only [width_append, hopening]
  omega

/-- A text is left as it is, apart from its line feeds, exactly if there are no two bold marks on a
line with something between them, and no link with a label and an address on a line. -/
theorem inlineMarkup_eq_literal_iff (settings : Settings) (lineBreak s : Text) :
    Render.inlineMarkup (settings.withLineBreak lineBreak) s = .ok (s.replace '\n' lineBreak) ↔
      (¬ ∃ content, WithinLine content ∧ boldSource content <:+: s) ∧
        ¬ ∃ l : Link, l.WithinLine ∧ l.source <:+: s := by
  rw [Render.inlineMarkup_withLineBreak, Except.ok.injEq, ← boldRule_reads.occurs_iff,
    ← linkRule_reads.occurs_iff, inline, bold_eq_rewrite, links_eq_rewrite]
  constructor
  · intro hliteral
    have hwidth := congrArg List.length hliteral
    change width lineBreak _ = width lineBreak s at hwidth
    have hlinks := linkRule_reads.not_occurs_or_width_lt (width_source_lt lineBreak)
      (boldRule.rewrite boldHtml s)
    have hbold := boldRule_reads.not_occurs_or_width_lt (width_boldSource_lt lineBreak) s
    rcases hbold with hbold | hbold
    · rw [Rule.rewrite_of_not_occurs hbold] at hlinks hwidth
      rcases hlinks with hlinks | hlinks
      · exact ⟨hbold, hlinks⟩
      · omega
    · rcases hlinks with hlinks | hlinks
      · rw [Rule.rewrite_of_not_occurs hlinks] at hwidth
        omega
      · omega
  · rintro ⟨hbold, hlinks⟩
    rw [Rule.rewrite_of_not_occurs hbold, Rule.rewrite_of_not_occurs hlinks]

/-- Marks with nothing between them are no markup. -/
example : inline lineBreakTag "****\n[](x) [x]()" = "****<br>[](x) [x]()" := by
  decide +kernel

end Stencil.Markup
