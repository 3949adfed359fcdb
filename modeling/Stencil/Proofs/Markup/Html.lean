import Stencil.Proofs.Markup.Inline
/-! What conversion makes of a text without angle brackets: every bracket of the result belongs to a
tag of bold text or of a link, and the tags can be told apart. -/
namespace Stencil.Markup

/-- A text whose only angle brackets are those of tags around bold text. -/
inductive Bolded : Text → Prop
  | nil : Bolded []
  | char {c : CodePoint} {s : Text} (hlt : c ≠ '<') (hgt : c ≠ '>') (hs : Bolded s) : Bolded (c :: s)
  | opening {s : Text} (hs : Bolded s) : Bolded (strongOpening ++ s)
  | closing {s : Text} (hs : Bolded s) : Bolded (strongClosing ++ s)

/-- A text with bold text converted, the links in it, and the same text with these converted. -/
inductive Linked : Text → List Link → Text → Prop
  | nil : Linked [] [] []
  | char {c : CodePoint} {s html : Text} {ls : List Link} (hlt : c ≠ '<') (hgt : c ≠ '>')
      (h : Linked s ls html) : Linked (c :: s) ls (c :: html)
  | opening {s html : Text} {ls : List Link} (h : Linked s ls html) :
      Linked (strongOpening ++ s) ls (strongOpening ++ html)
  | closing {s html : Text} {ls : List Link} (h : Linked s ls html) :
      Linked (strongClosing ++ s) ls (strongClosing ++ html)
  | link {l : Link} {s html : Text} {ls : List Link} (hl : l.WithinLine) (hlabel : Bolded l.label)
      (hurl : Bolded l.url) (h : Linked s ls html) :
      Linked (l.source ++ s) (l :: ls) (l.html ++ html)

variable {s t u : Text} {c : CodePoint} {l : Link}

namespace Rule

variable {α : Type} {r : Rule α}

theorem skips_of_other (h : ∀ c, c ≠ ↑ '<' → ∀ t, r.read (c :: t) = none) (hs : ↑ '<' ∉ s) :
    r.Skips s := by
  refine skips_of_forall fun c hc t => h c ?_ t
  rintro rfl
  exact hs hc

/-- Of a tag only the bracket can start something. -/
theorem skips_tag (h : ∀ c, c ≠ ↑ '<' → ∀ t, r.read (c :: t) = none) (hs : ↑ '<' ∉ s)
    (htag : ∀ t, r.read (↑ '<' :: s ++ t) = none) : r.Skips (↑ '<' :: s) :=
  (skips_of_other h hs).cons htag

end Rule

namespace Bolded

theorem of_notMem (hlt : ↑ '<' ∉ s) (hgt : ↑ '>' ∉ s) : Bolded s := by
  induction s with
  | nil => exact nil
  | cons c s ih =>
    obtain ⟨hc, hlt⟩ := Text.notMem_cons.1 hlt
    obtain ⟨hc', hgt⟩ := Text.notMem_cons.1 hgt
    exact char hc hc' (ih hlt hgt)

theorem append (hs : Bolded s) (ht : Bolded t) : Bolded (s ++ t) := by
  induction hs with
  | nil => exact ht
  | char hlt hgt _ ih => exact char hlt hgt ih
  | opening _ ih =>
    rw [List.append_assoc]
    exact opening ih
  | closing _ ih =>
    rw [List.append_assoc]
    exact closing ih

/-- A character that no tag has is not within one. -/
theorem exists_of_tag_append {tag : Text} (hc : c ∉ tag) (h : s ++ c :: t = tag ++ u) :
    ∃ v, s = tag ++ v ∧ u = v ++ c :: t := by
  rcases List.append_eq_append_iff.1 h with ⟨v, htag, hu⟩ | ⟨v, hs, hu⟩
  · cases v with
    | nil => exact ⟨[], by rw [htag, List.append_nil, List.append_nil], hu.symm⟩
    | cons d v =>
      obtain ⟨rfl, -⟩ := List.cons.inj hu
      rw [htag] at hc
      exact absurd (List.mem_append_right s List.mem_cons_self) hc
  · exact ⟨v, hs, hu⟩

/-- A text can be cut at a character that no tag has. -/
theorem cut (hc : c ∉ strongOpening ++ strongClosing) (h : Bolded (s ++ c :: t)) :
    Bolded s ∧ Bolded t := by
  obtain ⟨hopening, hclosing⟩ := not_or.1 (mt List.mem_append.2 hc)
  generalize hu : s ++ c :: t = u at h
  induction h generalizing s with
  | nil => simp at hu
  | char hlt hgt hrest ih =>
    cases s with
    | nil =>
      obtain ⟨-, rfl⟩ := List.cons.inj hu
      exact ⟨nil, hrest⟩
    | cons d s =>
      obtain ⟨rfl, htail⟩ := List.cons.inj hu
      obtain ⟨hs, ht⟩ := ih htail
      exact ⟨char hlt hgt hs, ht⟩
  | opening _ ih =>
    obtain ⟨v, rfl, hv⟩ := exists_of_tag_append hopening hu
    obtain ⟨hs, ht⟩ := ih hv.symm
    exact ⟨opening hs, ht⟩
  | closing _ ih =>
    obtain ⟨v, rfl, hv⟩ := exists_of_tag_append hclosing hu
    obtain ⟨hs, ht⟩ := ih hv.symm
    exact ⟨closing hs, ht⟩

/-- The parts of a link have whole tags. -/
theorem of_source (h : Bolded (l.source ++ t)) : Bolded l.label ∧ Bolded l.url ∧ Bolded t := by
  have hsource : l.source ++ t =
      ([] : Text) ++ ↑ '[' :: (l.label ++ ↑ ']' :: (([] : Text) ++ ↑ '(' :: (l.url ++ ↑ ')' :: t))) := by
    simp [Link.source, labelEnd, urlEnd]
  rw [hsource] at h
  obtain ⟨-, h⟩ := cut (by decide) h
  obtain ⟨hlabel, h⟩ := cut (by decide) h
  obtain ⟨-, h⟩ := cut (by decide) h
  obtain ⟨hurl, ht⟩ := cut (by decide) h
  exact ⟨hlabel, hurl, ht⟩

theorem not_prefix (h : Bolded s) : ¬ [↑ '>'] <+: s := by
  rintro ⟨t, rfl⟩
  cases h with
  | char _ hgt _ => exact hgt rfl

/-- A closing bracket has the last letter of a tag in front of it. -/
theorem not_pair (h : Bolded s) (hc : c ≠ 'g') : ¬ [c, ↑ '>'] <:+: s := by
  induction h with
  | nil => simp
  | @char d s _ _ hs ih =>
    rw [List.infix_cons_iff, List.cons_prefix_cons]
    rintro (⟨-, hprefix⟩ | hinfix)
    · exact hs.not_prefix hprefix
    · exact ih hinfix
  | @opening s hs ih =>
    have hspelled : strongOpening ++ s =
        ↑ '<' :: ↑ 's' :: ↑ 't' :: ↑ 'r' :: ↑ 'o' :: ↑ 'n' :: ↑ 'g' :: ↑ '>' :: s := rfl
    simp [hspelled, List.infix_cons_iff, hc, hs.not_prefix, ih]
  | @closing s hs ih =>
    have hspelled : strongClosing ++ s =
        ↑ '<' :: ↑ '/' :: ↑ 's' :: ↑ 't' :: ↑ 'r' :: ↑ 'o' :: ↑ 'n' :: ↑ 'g' :: ↑ '>' :: s := rfl
    simp [hspelled, List.infix_cons_iff, hc, hs.not_prefix, ih]

end Bolded

theorem Link.WithinLine.notMem_html (h : l.WithinLine) : ↑ '\n' ∉ l.html := by
  have hopening : ↑ '\n' ∉ anchorOpening := by decide
  have hmiddle : ↑ '\n' ∉ anchorMiddle := by decide
  have hclosing : ↑ '\n' ∉ anchorClosing := by decide
  simp only [Link.html_eq, List.mem_append, not_or]
  exact ⟨⟨⟨⟨hopening, h.url.notMem⟩, hmiddle⟩, h.label.notMem⟩, hclosing⟩

/-- The address of a link goes up to the next part of its tag, whatever is in it. -/
theorem breakOnLine_anchorMiddle (hurl : Bolded s) (hline : ↑ '\n' ∉ s) (t : Text) :
    breakOnLine anchorMiddle (s ++ anchorMiddle ++ t) = some (s, t) := by
  have hmark : anchorMiddle =
      ("\" target=\"_blank\" rel=\"noopener" : Text) ++ (['"', '>'] : Text) := by
    decide
  exact breakOnLine_of_last hmark (by decide) hline (hurl.not_pair (by decide)) t

/-- The label of a link goes up to its closing tag. -/
theorem breakOnLine_anchorClosing (hlabel : Bolded s) (hline : ↑ '\n' ∉ s) (t : Text) :
    breakOnLine anchorClosing (s ++ anchorClosing ++ t) = some (s, t) := by
  have hmark : anchorClosing = ("</" : Text) ++ (['a', '>'] : Text) := by decide
  exact breakOnLine_of_last hmark (by decide) hline (hlabel.not_pair (by decide)) t

theorem bolded_bold (hlt : ↑ '<' ∉ s) (hgt : ↑ '>' ∉ s) : Bolded (bold s) := by
  rw [bold_eq_rewrite]
  induction s using boldRule.induction with
  | nil => rw [Rule.rewrite_nil]; exact .nil
  | char c s hread ih =>
    obtain ⟨hc, hlt⟩ := Text.notMem_cons.1 hlt
    obtain ⟨hc', hgt⟩ := Text.notMem_cons.1 hgt
    rw [Rule.rewrite_of_none hread]
    exact .char hc hc' (ih hlt hgt)
  | mark s content after hread ih =>
    obtain ⟨rfl, -⟩ := boldRule_reads.spelled hread
    simp only [boldSource, List.mem_append, not_or] at hlt hgt
    rw [Rule.rewrite_of_read hread, boldHtml_eq, List.append_assoc, List.append_assoc]
    have hcontent : Bolded content := .of_notMem hlt.1.1.2 hgt.1.1.2
    exact .opening (hcontent.append (.closing (ih hlt.2 hgt.2)))

theorem linkRule_skips (h : ↑ '[' ∉ s) : linkRule.Skips s := by
  refine Rule.skips_of_forall fun c hc t => linkRule_read_of_ne ?_ t
  rintro rfl
  exact h hc

/-- The links of a text. They are found after the bold text is converted. -/
def linksOf (s : Text) : List Link := linkRule.marks (bold s)

theorem linked_of_bolded (h : Bolded s) : Linked s (linkRule.marks s) (links s) := by
  rw [links_eq_rewrite]
  induction hlength : s.length using Nat.strongRecOn generalizing s with
  | ind n ih =>
    subst hlength
    cases h with
    | nil =>
      rw [Rule.marks_nil, Rule.rewrite_nil]
      exact .nil
    | @char c s hlt hgt hs =>
      cases hread : linkRule.read (c :: s) with
      | none =>
        rw [Rule.marks_of_none hread, Rule.rewrite_of_none hread]
        exact .char hlt hgt (ih _ (Nat.lt_succ_self _) hs rfl)
      | some found =>
        obtain ⟨l, after⟩ := found
        have hafter := linkRule.shorter hread
        obtain ⟨hsource, hl⟩ := linkRule_reads.spelled hread
        have hparts : Bolded (l.source ++ after) := hsource ▸ .char hlt hgt hs
        obtain ⟨hlabel, hurl, hrest⟩ := hparts.of_source
        rw [Rule.marks_of_read hread, Rule.rewrite_of_read hread, hsource]
        exact .link hl hlabel hurl (ih _ hafter hrest rfl)
    | @opening s hs =>
      have hskips : linkRule.Skips strongOpening := linkRule_skips (by decide)
      rw [hskips.marks_append, hskips.rewrite_append]
      refine .opening (ih _ ?_ hs rfl)
      rw [List.length_append]
      exact Nat.lt_add_of_pos_left (by decide)
    | @closing s hs =>
      have hskips : linkRule.Skips strongClosing := linkRule_skips (by decide)
      rw [hskips.marks_append, hskips.rewrite_append]
      refine .closing (ih _ ?_ hs rfl)
      rw [List.length_append]
      exact Nat.lt_add_of_pos_left (by decide)

end Stencil.Markup
