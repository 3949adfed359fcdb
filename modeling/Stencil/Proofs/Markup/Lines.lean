import Stencil.Proofs.Markup.Inline
/-! Markup is converted line by line: no markup goes on behind the end of its line, so that a line
is converted in the same way whatever stands on the others. -/
namespace Stencil.Markup

/-- A text is converted by writing the markup that a rule finds in it, and all else as it stands. -/
structure Rule.Converts {α : Type} (r : Rule α) (source html : α → Text) (s t : Text) : Prop where
  spelled : r.rewrite source s = s
  written : r.rewrite html s = t

/-- No bold text of a text has a line feed, and no link, the links being found after the bold texts
are converted. -/
structure SpansWithinLines (s : Text) : Prop where
  bold : boldRule.Converts boldSource boldHtml s (bold s)
  content : ∀ content ∈ boldRule.marks s, ↑ '\n' ∉ content
  links : linkRule.Converts Link.source Link.html (Markup.bold s) (links (Markup.bold s))
  link : ∀ l ∈ linkRule.marks (Markup.bold s), ↑ '\n' ∉ l.label ∧ ↑ '\n' ∉ l.url

theorem spansWithinLines (s : Text) : SpansWithinLines s where
  bold := ⟨boldRule_reads.rewrite_source s, (bold_eq_rewrite s).symm⟩
  content _ h := (boldRule_reads.of_mem_marks h).notMem
  links := ⟨linkRule_reads.rewrite_source _, (links_eq_rewrite _).symm⟩
  link l h := by
    have hl : l.WithinLine := linkRule_reads.of_mem_marks h
    exact ⟨hl.label.notMem, hl.url.notMem⟩

theorem bold_append_newline (s t : Text) : bold (s ++ ↑ '\n' :: t) = bold s ++ ↑ '\n' :: bold t := by
  simp only [bold_eq_rewrite]
  exact Rule.rewrite_append_newline boldRule_keepsToLine boldHtml s t

theorem links_append_newline (s t : Text) :
    links (s ++ ↑ '\n' :: t) = links s ++ ↑ '\n' :: links t := by
  simp only [links_eq_rewrite]
  exact Rule.rewrite_append_newline linkRule_keepsToLine Link.html s t

theorem inline_append_newline (lineBreak s t : Text) :
    inline lineBreak (s ++ ↑ '\n' :: t) = inline lineBreak s ++ lineBreak ++ inline lineBreak t := by
  rw [inline, bold_append_newline, links_append_newline, Text.replace_append,
    Text.replace_cons_self, ← List.append_assoc]
  rfl

theorem inline_join (lineBreak : Text) (lines : List Text) :
    inline lineBreak (Text.join [↑ '\n'] lines) =
      Text.join lineBreak (lines.map (inline lineBreak)) := by
  induction lines with
  | nil => exact inline_nil lineBreak
  | cons line lines ih =>
    cases lines with
    | nil => rfl
    | cons next lines =>
      have hjoin : Text.join [↑ '\n'] (line :: next :: lines) =
          line ++ ↑ '\n' :: Text.join [↑ '\n'] (next :: lines) := by
        simp only [Text.join, List.append_assoc, List.singleton_append]
      rw [hjoin, inline_append_newline, ih]
      rfl

/-- Two texts on lines of their own are converted one after the other, and so is any number of
lines; no bold text and no link crosses the end of a line. -/
theorem inlineMarkup_lineByLine (settings : Settings) (lineBreak : Text) :
    (∀ s t, ∃ x y, Render.inlineMarkup (settings.withLineBreak lineBreak) s = .ok x ∧
      Render.inlineMarkup (settings.withLineBreak lineBreak) t = .ok y ∧
      Render.inlineMarkup (settings.withLineBreak lineBreak) (s ++ ↑ '\n' :: t) =
        .ok (x ++ lineBreak ++ y)) ∧
    (∀ lines, Render.inlineMarkup (settings.withLineBreak lineBreak) (Text.join [↑ '\n'] lines) =
      .ok (Text.join lineBreak (lines.map (inline lineBreak)))) ∧
    ∀ s, SpansWithinLines s := by
  have hinline := Render.inlineMarkup_withLineBreak settings lineBreak
  refine ⟨?_, ?_, spansWithinLines⟩
  · intro s t
    refine ⟨inline lineBreak s, inline lineBreak t, hinline s, hinline t, ?_⟩
    rw [hinline, inline_append_newline]
  · intro lines
    rw [hinline, inline_join]

end Stencil.Markup
