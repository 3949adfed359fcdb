import Mathlib.Data.List.Forall2
import Stencil.Proofs.Markup.Inline
import Stencil.Proofs.Markup.Sections
/-! Paragraphs and headings: a text is converted section by section, each to a line of its own, and it
makes no difference to a section what stands in front of the run of line feeds before it or behind the
one after it. -/
namespace Stencil

theorem Text.join_append (sep : Text) {ps qs : List Text} (hps : ps ≠ []) (hqs : qs ≠ []) :
    join sep (ps ++ qs) = join sep ps ++ sep ++ join sep qs := by
  obtain ⟨q, qs, rfl⟩ := List.exists_cons_of_ne_nil hqs
  induction ps with
  | nil => exact absurd rfl hps
  | cons p ps ih =>
    cases ps with
    | nil => rfl
    | cons p' ps =>
      have hrest := ih (List.cons_ne_nil p' ps)
      simp only [List.cons_append, join, List.append_assoc] at hrest ⊢
      rw [hrest]

namespace Markup

variable {lineBreak s t line : Text} {us ps qs : List Text}

/-- Two outputs on lines of their own. An empty one has no line. -/
def stack (x y : Text) : Text :=
  if x.isEmpty then y else if y.isEmpty then x else x ++ ↑ '\n' :: y

/-- The lines of an output. An empty one has none. -/
def outputLines (out : Text) : List Text := if out.isEmpty then [] else Text.splitOn '\n' out

@[simp] theorem stack_nil_left (t : Text) : stack [] t = t := rfl

@[simp] theorem stack_nil_right (s : Text) : stack s [] = s := by
  cases s <;> rfl

theorem stack_of_ne_nil (hs : s ≠ []) (ht : t ≠ []) : stack s t = s ++ ↑ '\n' :: t := by
  rw [stack, if_neg (mt List.isEmpty_iff.1 hs), if_neg (mt List.isEmpty_iff.1 ht)]

/-- The kinds of sections. -/
inductive SectionKind where
  | paragraph
  | heading
  | subheading

namespace SectionKind

/-- What a section of the kind starts with. -/
def mark : SectionKind → Text
  | .paragraph => []
  | .heading => headingMark
  | .subheading => subheadingMark

/-- The name of the element that a section of the kind becomes. -/
def name : SectionKind → Text
  | .paragraph => "p"
  | .heading => "h2"
  | .subheading => "h3"

end SectionKind

/-- A section without the blanks around it is told by its mark: a paragraph is what starts with no
mark of a heading. -/
structure IsOfKind (s : Text) (kind : SectionKind) (content : Text) : Prop where
  marked : Text.strip s = kind.mark ++ content
  unmarked : kind = .paragraph → ¬ headingMark <+: Text.strip s ∧ ¬ subheadingMark <+: Text.strip s

/-- A line is the block of a section: what the section becomes by itself, the element of its kind
around its converted content. -/
structure IsBlockOf (settings : Settings) (s line : Text) : Prop where
  alone : Render.blockMarkup settings s = .ok line
  enclosed : ∃ kind content html, IsOfKind s kind content ∧
    Render.inlineMarkup settings content = .ok html ∧ line = element kind.name html

theorem block_eq (lineBreak s : Text) :
    block lineBreak s = Text.join [↑ '\n'] ((kept (paragraphs s)).map (unit lineBreak)) := rfl

theorem exists_unit_eq (lineBreak s : Text) : ∃ kind content,
    IsOfKind s kind content ∧
      unit lineBreak (Text.strip s) = element kind.name (inline lineBreak content) := by
  have hdrop {mark : Text} (h : mark.isPrefixOf (Text.strip s)) :
      Text.strip s = mark ++ (Text.strip s).drop mark.length :=
    (List.prefix_iff_eq_append.1 (List.isPrefixOf_iff_prefix.1 h)).symm
  unfold unit
  split
  · next hsub => exact ⟨.subheading, _, ⟨hdrop hsub, nofun⟩, rfl⟩
  · next hsub =>
    rw [List.isPrefixOf_iff_prefix] at hsub
    split
    · next hhead => exact ⟨.heading, _, ⟨hdrop hhead, nofun⟩, rfl⟩
    · next hhead =>
      rw [List.isPrefixOf_iff_prefix] at hhead
      exact ⟨.paragraph, _, ⟨rfl, fun _ => ⟨hhead, hsub⟩⟩, rfl⟩

theorem notMem_inline (h : ↑ '\n' ∉ lineBreak) (s : Text) : ↑ '\n' ∉ inline lineBreak s := by
  intro hmem
  obtain ⟨c, -, hc⟩ := List.mem_flatMap.1 hmem
  split at hc
  · exact h hc
  · next hne => exact hne (List.mem_singleton.1 hc).symm

theorem notMem_element (kind : SectionKind) {content : Text} (h : ↑ '\n' ∉ content) :
    ↑ '\n' ∉ element kind.name content := by
  have hname : ↑ '\n' ∉ kind.name := by cases kind <;> decide
  simp [element, hname, h]

theorem notMem_unit (h : ↑ '\n' ∉ lineBreak) (s : Text) :
    ↑ '\n' ∉ unit lineBreak (Text.strip s) := by
  obtain ⟨kind, content, -, hunit⟩ := exists_unit_eq lineBreak s
  rw [hunit]
  exact notMem_element kind (notMem_inline h content)

theorem unit_ne_nil (lineBreak s : Text) : unit lineBreak s ≠ [] := by
  unfold unit
  split
  · exact List.cons_ne_nil _ _
  · split <;> exact List.cons_ne_nil _ _

theorem kept_paragraphs_eq_nil_iff :
    kept (paragraphs s) = [] ↔ ∀ c ∈ s, Text.isBlank c := by
  induction s using paragraphs.induct with
  | case1 s hs => simp [paragraphs_of_none hs, kept_eq_nil_iff]
  | case2 s before after hs _ ih =>
    have hnewline : Text.isBlank '\n' := by decide
    rw [paragraphs_of_some hs, kept_cons, List.append_eq_nil_iff, kept_eq_nil_iff, ih,
      Text.eq_of_breakPair hs]
    simp only [List.forall_mem_append, List.forall_mem_cons, List.not_mem_nil, false_implies,
      implies_true, and_true, hnewline, true_and]

theorem join_units_ne_nil (lineBreak : Text) (hps : ps ≠ []) :
    Text.join [↑ '\n'] (ps.map (unit lineBreak)) ≠ [] := by
  obtain ⟨p, ps, rfl⟩ := List.exists_cons_of_ne_nil hps
  cases ps with
  | nil => exact unit_ne_nil lineBreak p
  | cons => simp [Text.join]

/-- The blocks of two lists, one to a line, are those of the first above those of the second. -/
theorem join_units_append (lineBreak : Text) (ps qs : List Text) :
    Text.join [↑ '\n'] ((ps ++ qs).map (unit lineBreak)) =
      stack (Text.join [↑ '\n'] (ps.map (unit lineBreak)))
        (Text.join [↑ '\n'] (qs.map (unit lineBreak))) := by
  by_cases hps : ps = []
  · subst hps
    rfl
  by_cases hqs : qs = []
  · subst hqs
    rw [List.append_nil]
    exact (stack_nil_right _).symm
  have hmap {ps : List Text} (h : ps ≠ []) : ps.map (unit lineBreak) ≠ [] :=
    mt List.map_eq_nil_iff.1 h
  rw [stack_of_ne_nil (join_units_ne_nil lineBreak hps) (join_units_ne_nil lineBreak hqs),
    List.map_append, Text.join_append _ (hmap hps) (hmap hqs), List.append_assoc]
  rfl

theorem block_append (lineBreak s t : Text) :
    block lineBreak (s ++ ↑ '\n' :: ↑ '\n' :: t) = stack (block lineBreak s) (block lineBreak t) := by
  rw [block_eq, kept_paragraphs_append]
  exact join_units_append lineBreak _ _

theorem block_of_blank (lineBreak : Text) (h : ∀ c ∈ s, Text.isBlank c) :
    block lineBreak s = [] := by
  rw [block_eq, kept_paragraphs_eq_nil_iff.2 h]
  rfl

theorem Sections.single (h : Sections s us) : ∀ u ∈ us, ¬ [↑ '\n', ↑ '\n'] <:+: u := by
  induction h with
  | last hsingle => exact List.forall_mem_singleton.2 hsingle
  | run n _ hsingle _ _ _ ih => exact List.forall_mem_cons.2 ⟨hsingle, ih⟩

theorem kept_eq_map (us : List Text) :
    kept us = (us.filter fun u => !u.all Text.isBlank).map Text.strip := by
  rw [kept, List.filter_map]
  congr 1
  apply List.filter_congr
  intro u _
  have hempty : (Text.strip u).isEmpty = u.all Text.isBlank := by
    rw [Bool.eq_iff_iff, List.isEmpty_iff, List.all_eq_true]
    exact Text.strip_eq_nil_iff
  simp [hempty]

/-- The lines of the output are the blocks of the sections that are not blank. -/
theorem outputLines_block (h : ↑ '\n' ∉ lineBreak) (hs : Sections s us) :
    outputLines (block lineBreak s) =
      (us.filter fun u => !u.all Text.isBlank).map fun u => unit lineBreak (Text.strip u) := by
  have hblock : block lineBreak s = Text.join [↑ '\n']
      ((us.filter fun u => !u.all Text.isBlank).map fun u => unit lineBreak (Text.strip u)) := by
    rw [block_eq, hs.kept_eq, kept_eq_map, List.map_map]
    rfl
  rw [hblock]
  cases hfilter : us.filter fun u => !u.all Text.isBlank with
  | nil => rfl
  | cons u rest =>
    have hline : ∀ line ∈ (u :: rest).map fun u => unit lineBreak (Text.strip u), ↑ '\n' ∉ line := by
      intro line hline
      obtain ⟨v, -, rfl⟩ := List.mem_map.1 hline
      exact notMem_unit h v
    have hsplit := Text.splitOn_join (by simp) hline
    rw [outputLines, if_neg, hsplit]
    intro hempty
    rw [List.isEmpty_iff.1 hempty] at hsplit
    -- a split of nothing is one empty line, and no block is empty
    exact unit_ne_nil lineBreak _ (List.cons.inj hsplit).1.symm

end Markup

namespace Render

variable {settings : Settings} {lineBreak : Text}

theorem blockMarkup_of_blank (settings : Settings) {s : Text} (h : s.all Text.isBlank) :
    blockMarkup settings s = .ok [] := if_pos h

/-- With a line break that can be used, every text is converted. -/
theorem blockMarkup_of_ok (h : settings.lineBreakText = .ok lineBreak) (s : Text) :
    blockMarkup settings s = .ok (Markup.block lineBreak s) := by
  unfold blockMarkup
  split
  · next hblank => rw [Markup.block_of_blank lineBreak (List.all_eq_true.1 hblank)]
  · rw [h]
    rfl

/-- With one that cannot be used, a text that is not blank has no conversion. -/
theorem blockMarkup_of_error {fault : ValueFault} (h : settings.lineBreakText = .error fault)
    {s : Text} (hs : ¬ s.all Text.isBlank) : blockMarkup settings s = .error fault := by
  unfold blockMarkup
  rw [if_neg hs, h]
  rfl

theorem blockMarkup_withLineBreak (settings : Settings) (lineBreak s : Text) :
    blockMarkup (settings.withLineBreak lineBreak) s = .ok (Markup.block lineBreak s) :=
  blockMarkup_of_ok rfl s

/-- The conversion of two texts with a run of line feeds between them is put together from theirs,
and fails where one of them does. -/
theorem blockMarkup_append (settings : Settings) (s t : Text) :
    blockMarkup settings (s ++ ↑ '\n' :: ↑ '\n' :: t) = do
      let x ← blockMarkup settings s
      let y ← blockMarkup settings t
      return Markup.stack x y := by
  cases htext : settings.lineBreakText with
  | ok lineBreak =>
    simp only [blockMarkup_of_ok htext, Markup.block_append]
    rfl
  | error fault =>
    have hall : (s ++ ↑ '\n' :: ↑ '\n' :: t).all Text.isBlank =
        (s.all Text.isBlank && t.all Text.isBlank) := by
      rw [List.all_append]
      rfl
    by_cases hs : s.all Text.isBlank
    · rw [blockMarkup_of_blank settings hs]
      by_cases ht : t.all Text.isBlank
      · rw [blockMarkup_of_blank settings ht, blockMarkup_of_blank settings (by rw [hall, hs, ht]; rfl)]
        rfl
      · rw [blockMarkup_of_error htext ht, blockMarkup_of_error htext (by rw [hall, hs]; exact ht)]
        rfl
    · rw [blockMarkup_of_error htext hs, blockMarkup_of_error htext (by simp [hall, hs])]
      rfl

end Render

namespace Markup

variable {lineBreak s : Text} {us : List Text}

theorem isBlockOf_unit (settings : Settings) (lineBreak : Text) (hs : ¬ [↑ '\n', ↑ '\n'] <:+: s)
    (hblank : ¬ s.all Text.isBlank) :
    IsBlockOf (settings.withLineBreak lineBreak) s (unit lineBreak (Text.strip s)) := by
  constructor
  · have hkept : kept (paragraphs s) = [Text.strip s] := by
      rw [paragraphs_of_none (Text.breakPair_eq_none_iff.2 hs), kept_eq_map,
        List.filter_cons_of_pos (by simpa using hblank)]
      rfl
    rw [Render.blockMarkup_withLineBreak, block_eq, hkept]
    rfl
  · obtain ⟨kind, content, hkind, hunit⟩ := exists_unit_eq lineBreak s
    exact ⟨kind, content, _, hkind, Render.inlineMarkup_withLineBreak _ _ _, hunit⟩

/-- Where two texts are joined by a run of line feeds, their conversions stand on lines of their own.
With a line break that is a text, every text is converted, and if there is no line feed in it, the lines
of the output are the blocks of those sections of the text that are not blank. -/
theorem blockMarkup_bySections (settings : Settings) (lineBreak : Text) :
    (∀ s t, Render.blockMarkup settings (s ++ ↑ '\n' :: ↑ '\n' :: t) = do
      let x ← Render.blockMarkup settings s
      let y ← Render.blockMarkup settings t
      return stack x y) ∧
    (∀ s, ∃ out, Render.blockMarkup (settings.withLineBreak lineBreak) s = .ok out) ∧
    (↑ '\n' ∉ lineBreak → ∀ s, ∃ out us,
      Render.blockMarkup (settings.withLineBreak lineBreak) s = .ok out ∧
      Sections s us ∧ (∀ vs, Sections s vs → vs = us) ∧
      List.Forall₂ (IsBlockOf (settings.withLineBreak lineBreak))
        (us.filter fun u => !u.all Text.isBlank) (outputLines out)) := by
  refine ⟨Render.blockMarkup_append settings, ?_, ?_⟩
  · intro s
    exact ⟨_, Render.blockMarkup_withLineBreak settings lineBreak s⟩
  · intro h s
    obtain ⟨us, hus⟩ := exists_sections s
    refine ⟨_, us, Render.blockMarkup_withLineBreak settings lineBreak s, hus, ?_, ?_⟩
    · intro vs hvs
      exact hvs.unique hus
    · rw [outputLines_block h hus, List.forall₂_map_right_iff, List.forall₂_same]
      intro u hu
      obtain ⟨hmem, hblank⟩ := List.mem_filter.1 hu
      exact isBlockOf_unit settings lineBreak (hus.single u hmem) (by simpa using hblank)

/-- Three sections: a heading behind a line feed, blanks, and a paragraph of two lines. -/
def spacedText : Text := "\n### a\n\n\n \t\n\n**b**\nc\n"

theorem sections_spacedText :
    Sections spacedText [("\n### a" : Text), (" \t" : Text), ("**b**\nc\n" : Text)] := by
  have hsingle {u : Text} (h : u.breakPair '\n' = none) : ¬ [↑ '\n', ↑ '\n'] <:+: u :=
    Text.breakPair_eq_none_iff.1 h
  have hlast : Sections "**b**\nc\n" [("**b**\nc\n" : Text)] := .last (hsingle (by decide))
  have hblank : Sections " \t\n\n**b**\nc\n" [(" \t" : Text), ("**b**\nc\n" : Text)] :=
    .run 0 (by decide) (hsingle (by decide)) (by decide) (by decide) hlast
  exact .run 1 (by decide) (hsingle (by decide)) (by decide) (by decide) hblank

theorem blockMarkup_bySections_spacedText :
    ↑ '\n' ∉ lineBreakTag ∧
    List.Forall₂ (IsBlockOf (Settings.default.withLineBreak lineBreakTag))
      [("\n### a" : Text), ("**b**\nc\n" : Text)]
      [("<h3>a</h3>" : Text), ("<p><strong>b</strong><br>c</p>" : Text)] := by
  have hbreak : ↑ '\n' ∉ lineBreakTag := by decide
  obtain ⟨out, us, hout, -, hunique, hlines⟩ :=
    (blockMarkup_bySections .default lineBreakTag).2.2 hbreak spacedText
  have hblock : block lineBreakTag spacedText =
      ("<h3>a</h3>\n<p><strong>b</strong><br>c</p>" : Text) := by
    decide +kernel
  rw [Render.blockMarkup_withLineBreak, hblock] at hout
  obtain rfl := Except.ok.inj hout
  obtain rfl := hunique _ sections_spacedText
  exact ⟨hbreak, hlines⟩

end Markup
end Stencil
