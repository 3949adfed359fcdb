import Stencil.Proofs.Markup.Html
/-! Conversion loses nothing: a text without angle brackets is read back from its HTML by turning
line breaks, links and the tags of bold text back, each by a rule of its own. -/
namespace Stencil.Markup

variable {s t html : Text} {c : CodePoint} {l : Link} {ls : List Link}

namespace Rule

/-- The rule that reads one word. -/
def word (w : Text) (hw : w ≠ []) : Rule Unit where
  read s := (behind? w s).map fun after => ((), after)
  shorter h := by
    obtain ⟨after, hs, h⟩ := Option.map_eq_some_iff.1 h
    obtain ⟨-, rfl⟩ := Prod.mk.inj h
    exact length_lt_of_behind? hw hs

theorem word_read (w : Text) (hw : w ≠ []) (t : Text) :
    (word w hw).read (w ++ t) = some ((), t) := by
  simp only [word, behind?_append, Option.map_some]

theorem word_read_of_ne {d : CodePoint} {w : Text} (hc : c ≠ d) (t : Text) :
    (word (d :: w) (List.cons_ne_nil d w)).read (c :: t) = none := by
  simp only [word, behind?_cons_of_ne hc, Option.map_none]

theorem word_skips {d : CodePoint} {w : Text} (hs : d ∉ s) :
    (word (d :: w) (List.cons_ne_nil d w)).Skips s := by
  refine skips_of_forall fun c hc t => word_read_of_ne ?_ t
  rintro rfl
  exact hs hc

/-- A rule for HTML whose markup starts with other tags than those of bold text. -/
structure PassesBold {α : Type} (r : Rule α) : Prop where
  other : ∀ c, c ≠ ↑ '<' → ∀ t, r.read (c :: t) = none
  opening : ∀ t, r.read (strongOpening ++ t) = none
  closing : ∀ t, r.read (strongClosing ++ t) = none

variable {α : Type} {r : Rule α}

theorem PassesBold.skips_opening (h : r.PassesBold) : r.Skips strongOpening :=
  skips_tag (s := "strong>") h.other (by decide) h.opening

theorem PassesBold.skips_closing (h : r.PassesBold) : r.Skips strongClosing :=
  skips_tag (s := "/strong>") h.other (by decide) h.closing

theorem PassesBold.skips (h : r.PassesBold) (hs : Bolded s) : r.Skips s := by
  induction hs with
  | nil => exact r.skips_nil
  | char hlt _ _ ih => exact ih.cons fun t => h.other _ hlt _
  | opening _ ih => exact h.skips_opening.append ih
  | closing _ ih => exact h.skips_closing.append ih

end Rule

def lineBreakRule : Rule Unit := .word lineBreakTag (by decide)

/-- The rule that reads the template of a link. -/
def anchorRule : Rule Link where
  read s := (behind? anchorOpening s).bind fun s =>
    (breakOnLine anchorMiddle s).bind fun (url, s) =>
      (breakOnLine anchorClosing s).map fun (label, after) => (⟨label, url⟩, after)
  shorter h := by
    obtain ⟨u, hu, h⟩ := Option.bind_eq_some_iff.1 h
    obtain ⟨⟨url, v⟩, hv, h⟩ := Option.bind_eq_some_iff.1 h
    obtain ⟨⟨label, w⟩, hw, h⟩ := Option.map_eq_some_iff.1 h
    obtain ⟨-, rfl⟩ := Prod.mk.inj h
    have hvw := Nat.le_trans (length_le_of_breakOnLine hw) (length_le_of_breakOnLine hv)
    exact Nat.lt_of_le_of_lt hvw (length_lt_of_behind? (by decide) hu)

def openingRule : Rule Unit := .word strongOpening (by decide)

def closingRule : Rule Unit := .word strongClosing (by decide)

/-- HTML with the tags of bold text turned back into bold marks. -/
def unbold (s : Text) : Text :=
  openingRule.rewrite (fun _ => boldMark) (closingRule.rewrite (fun _ => boldMark) s)

/-- HTML with its line breaks, its links and the tags of bold text turned back. -/
def readBack (s : Text) : Text :=
  unbold (anchorRule.rewrite Link.source (lineBreakRule.rewrite (fun _ => [↑ '\n']) s))

theorem lineBreakRule_passesBold : lineBreakRule.PassesBold where
  other _ hc := Rule.word_read_of_ne hc
  opening _ := rfl
  closing _ := rfl

theorem anchorRule_passesBold : anchorRule.PassesBold where
  other c hc t := by
    have hbehind : behind? anchorOpening (c :: t) = none := behind?_cons_of_ne hc t
    simp only [anchorRule, hbehind, Option.bind_none]
  opening _ := rfl
  closing _ := rfl

theorem anchorRule_read (hl : l.WithinLine) (hlabel : Bolded l.label) (hurl : Bolded l.url)
    (t : Text) : anchorRule.read (l.html ++ t) = some (l, t) := by
  have hhtml : l.html ++ t =
      anchorOpening ++ (l.url ++ anchorMiddle ++ (l.label ++ anchorClosing ++ t)) := by
    simp only [Link.html_eq, List.append_assoc]
  simp only [anchorRule, hhtml, behind?_append, Option.bind_some,
    breakOnLine_anchorMiddle hurl hl.url.notMem, breakOnLine_anchorClosing hlabel hl.label.notMem,
    Option.map_some]

theorem unlink_of_linked (h : Linked s ls html) : anchorRule.rewrite Link.source html = s := by
  induction h with
  | nil => exact Rule.rewrite_nil _ _
  | char hlt _ _ ih => rw [Rule.rewrite_of_none (anchorRule_passesBold.other _ hlt _), ih]
  | opening _ ih => rw [anchorRule_passesBold.skips_opening.rewrite_append, ih]
  | closing _ ih => rw [anchorRule_passesBold.skips_closing.rewrite_append, ih]
  | link hl hlabel hurl _ ih =>
    rw [Rule.rewrite_of_read (anchorRule_read hl hlabel hurl _), ih]

/-- No line break starts within a link. -/
theorem lineBreakRule_skips_html (hlabel : Bolded l.label) (hurl : Bolded l.url) :
    lineBreakRule.Skips l.html := by
  have hother := lineBreakRule_passesBold.other
  have hopening : lineBreakRule.Skips anchorOpening :=
    Rule.skips_tag (s := "a href=\"") hother (by decide) fun _ => rfl
  have hmiddle : lineBreakRule.Skips anchorMiddle := Rule.skips_of_other hother (by decide)
  have hclosing : lineBreakRule.Skips anchorClosing :=
    Rule.skips_tag (s := "/a>") hother (by decide) fun _ => rfl
  rw [Link.html_eq]
  exact (((hopening.append (lineBreakRule_passesBold.skips hurl)).append hmiddle).append
    (lineBreakRule_passesBold.skips hlabel)).append hclosing

theorem unbreak_of_linked (h : Linked s ls html) :
    lineBreakRule.rewrite (fun _ => [↑ '\n']) (html.replace '\n' lineBreakTag) = html := by
  induction h with
  | nil => exact Rule.rewrite_nil _ _
  | @char c s html ls hlt _ _ ih =>
    by_cases hc : c = '\n'
    · subst hc
      have hread := Rule.word_read lineBreakTag (by decide) (Text.replace html '\n' lineBreakTag)
      rw [Text.replace_cons_self, lineBreakRule, Rule.rewrite_of_read hread]
      exact congrArg _ ih
    · rw [Text.replace_cons_of_ne hc,
        Rule.rewrite_of_none (lineBreakRule_passesBold.other c hlt _), ih]
  | opening _ ih =>
    rw [Text.replace_append_of_notMem (by decide),
      lineBreakRule_passesBold.skips_opening.rewrite_append, ih]
  | closing _ ih =>
    rw [Text.replace_append_of_notMem (by decide),
      lineBreakRule_passesBold.skips_closing.rewrite_append, ih]
  | link hl hlabel hurl _ ih =>
    rw [Text.replace_append_of_notMem hl.notMem_html,
      (lineBreakRule_skips_html hlabel hurl).rewrite_append, ih]

theorem unbold_append (hs : ↑ '<' ∉ s) (t : Text) : unbold (s ++ t) = s ++ unbold t := by
  have hopening : openingRule.Skips s := Rule.word_skips hs
  have hclosing : closingRule.Skips s := Rule.word_skips hs
  rw [unbold, hclosing.rewrite_append, hopening.rewrite_append]
  rfl

theorem unbold_opening (t : Text) : unbold (strongOpening ++ t) = boldMark ++ unbold t := by
  have hskips : closingRule.Skips strongOpening :=
    Rule.skips_tag (s := "strong>") (fun _ hc => Rule.word_read_of_ne hc) (by decide) fun _ => rfl
  rw [unbold, hskips.rewrite_append, openingRule, Rule.rewrite_of_read (Rule.word_read _ _ _)]
  rfl

theorem unbold_closing (t : Text) : unbold (strongClosing ++ t) = boldMark ++ unbold t := by
  have hskips : openingRule.Skips boldMark := Rule.word_skips (by decide)
  rw [unbold, closingRule, Rule.rewrite_of_read (Rule.word_read _ _ _), hskips.rewrite_append]
  rfl

theorem unbold_bold (hlt : ↑ '<' ∉ s) : unbold (bold s) = s := by
  rw [bold_eq_rewrite]
  induction s using boldRule.induction with
  | nil => simp only [unbold, Rule.rewrite_nil]
  | char c s hread ih =>
    obtain ⟨hc, hlt⟩ := Text.notMem_cons.1 hlt
    have hchar := unbold_append (s := [c]) (by simpa using Ne.symm hc) (boldRule.rewrite boldHtml s)
    rw [Rule.rewrite_of_none hread]
    exact hchar.trans (congrArg (c :: ·) (ih hlt))
  | mark s content after hread ih =>
    obtain ⟨rfl, -⟩ := boldRule_reads.spelled hread
    simp only [boldSource, List.mem_append, not_or] at hlt
    rw [Rule.rewrite_of_read hread, boldHtml_eq, List.append_assoc, List.append_assoc,
      unbold_opening, unbold_append hlt.1.1.2, unbold_closing, ih hlt.2]
    simp only [boldSource, List.append_assoc]

/-- A text without angle brackets is read back from what it is converted to. -/
theorem readBack_inline (hlt : ↑ '<' ∉ s) (hgt : ↑ '>' ∉ s) : readBack (inline lineBreakTag s) = s := by
  have hlinked := linked_of_bolded (bolded_bold hlt hgt)
  rw [readBack, inline, unbreak_of_linked hlinked, unlink_of_linked hlinked, unbold_bold hlt]

/-- With the default line break conversion loses nothing: a text without angle brackets is read back
from its HTML, so that no two of them have the same HTML. -/
theorem readBack_inlineMarkup (settings : Settings) (s : Text) (hlt : ↑ '<' ∉ s) (hgt : ↑ '>' ∉ s) :
    (∃ html, Render.inlineMarkup (settings.withLineBreak lineBreakTag) s = .ok html ∧
      readBack html = s) ∧
    ∀ t, ↑ '<' ∉ t → ↑ '>' ∉ t →
      Render.inlineMarkup (settings.withLineBreak lineBreakTag) s =
        Render.inlineMarkup (settings.withLineBreak lineBreakTag) t → s = t := by
  have hinline := Render.inlineMarkup_withLineBreak settings lineBreakTag
  refine ⟨⟨inline lineBreakTag s, hinline s, readBack_inline hlt hgt⟩, ?_⟩
  intro t hlt' hgt' heq
  rw [hinline, hinline, Except.ok.injEq] at heq
  calc s = readBack (inline lineBreakTag s) := (readBack_inline hlt hgt).symm
    _ = readBack (inline lineBreakTag t) := congrArg readBack heq
    _ = t := readBack_inline hlt' hgt'

/-- Bold text that crosses a link, and a link whose address has a part of its template in it. -/
theorem readBack_inlineMarkup_crossedLines :
    ↑ '<' ∉ ("**[a**](b\n*[c](\" target=**d**)" : Text) ∧
      ↑ '>' ∉ ("**[a**](b\n*[c](\" target=**d**)" : Text) ∧
      ∃ html, Render.inlineMarkup .default "**[a**](b\n*[c](\" target=**d**)" = .ok html ∧
        readBack html = "**[a**](b\n*[c](\" target=**d**)" := by
  have hlt : ↑ '<' ∉ ("**[a**](b\n*[c](\" target=**d**)" : Text) := by decide
  have hgt : ↑ '>' ∉ ("**[a**](b\n*[c](\" target=**d**)" : Text) := by decide
  obtain ⟨hread, -⟩ := readBack_inlineMarkup .default _ hlt hgt
  exact ⟨hlt, hgt, hread⟩

end Stencil.Markup
