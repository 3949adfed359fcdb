import Stencil.Proofs.Markup.Html
/-! The elements that conversion inserts, as they are read off the HTML. Links open and close one
after the other; all elements are properly nested exactly if no bold text crosses the edge of a
link. -/
namespace Stencil.Markup

/-- A tag of bold text or of a link. -/
inductive Tag where
  | strong
  | strongEnd
  | link (url : Text)
  | linkEnd
deriving DecidableEq

/-- The rule that reads the tags of bold text and of links. -/
def tagRule : Rule Tag where
  read s :=
    ((behind? strongOpening s).map fun after => (.strong, after)).or
    (((behind? strongClosing s).map fun after => (.strongEnd, after)).or
    (((behind? anchorClosing s).map fun after => (.linkEnd, after)).or
    ((behind? anchorOpening s).bind fun rest =>
      (breakOnLine anchorMiddle rest).map fun (url, after) => (.link url, after))))
  shorter {s t after} h := by
    simp only [Option.or_eq_some_iff, Option.map_eq_some_iff, Option.bind_eq_some_iff,
      Prod.mk.injEq] at h
    rcases h with ⟨_, h, -, rfl⟩ | ⟨-, ⟨_, h, -, rfl⟩ | ⟨-, ⟨_, h, -, rfl⟩ | ⟨-, rest, h, hurl⟩⟩⟩
    · exact length_lt_of_behind? (by decide) h
    · exact length_lt_of_behind? (by decide) h
    · exact length_lt_of_behind? (by decide) h
    · obtain ⟨⟨url, _⟩, hurl, -, rfl⟩ := hurl
      exact Nat.lt_of_le_of_lt (length_le_of_breakOnLine hurl) (length_lt_of_behind? (by decide) h)

/-- The tags in a piece of HTML. -/
def tags (html : Text) : List Tag := tagRule.marks html

inductive Element where
  | strong
  | link
deriving DecidableEq

/-- What a tag makes of the elements that are open, the innermost first: an opening tag opens one,
which has no tag in its address, and a closing tag closes the innermost one, if it is of its
kind. -/
def Tag.step : List Element → Tag → Option (List Element)
  | opened, .strong => some (.strong :: opened)
  | opened, .link url => if ↑ '<' ∈ url then none else some (.link :: opened)
  | .strong :: opened, .strongEnd => some opened
  | .link :: opened, .linkEnd => some opened
  | _, _ => none

/-- The elements that tags leave open. -/
def leaveOpen (opened : List Element) : List Tag → Option (List Element)
  | [] => some opened
  | t :: ts => (t.step opened).bind fun opened => leaveOpen opened ts

/-- Every closing tag closes the innermost element that is open, no address has a tag in it, and
nothing is left open. -/
def WellNested (html : Text) : Prop := leaveOpen [] (tags html) = some []

instance (html : Text) : Decidable (WellNested html) := inferInstanceAs (Decidable (_ = _))

/-- A link whose address has no tag in it and whose label has whole elements only. -/
structure Link.Whole (l : Link) : Prop where
  url : ↑ '<' ∉ l.url
  label : WellNested l.label

/-- A line break that has nothing to do with the tags. -/
def Neutral (lineBreak : Text) : Prop := ∀ t, tags (lineBreak ++ t) = tags t

def Tag.isLink : Tag → Bool
  | .link _ | .linkEnd => true
  | .strong | .strongEnd => false

/-- The tags of a link itself, without those in its label. -/
def Link.tags (l : Link) : List Tag := [.link l.url, .linkEnd]

variable {s t html lineBreak : Text} {c : CodePoint} {l : Link} {ls : List Link} {ts us : List Tag}
  {opened left base : List Element}

theorem tagRule_read_of_ne (c : CodePoint) (hc : c ≠ '<') (t : Text) : tagRule.read (c :: t) = none := by
  have hopening : behind? strongOpening (c :: t) = none := behind?_cons_of_ne hc t
  have hclosing : behind? strongClosing (c :: t) = none := behind?_cons_of_ne hc t
  have hanchorClosing : behind? anchorClosing (c :: t) = none := behind?_cons_of_ne hc t
  have hanchorOpening : behind? anchorOpening (c :: t) = none := behind?_cons_of_ne hc t
  simp only [tagRule, hopening, hclosing, hanchorClosing, hanchorOpening, Option.map_none,
    Option.bind_none, Option.or_none]

@[simp] theorem tags_nil : tags [] = [] := Rule.marks_nil tagRule

theorem tags_append_of_notMem (hs : ↑ '<' ∉ s) (t : Text) : tags (s ++ t) = tags t :=
  (Rule.skips_of_other tagRule_read_of_ne hs).marks_append t

theorem tags_cons_of_ne (hc : c ≠ '<') (s : Text) : tags (c :: s) = tags s :=
  Rule.marks_of_none (tagRule_read_of_ne c hc s)

theorem tags_strongOpening (t : Text) : tags (strongOpening ++ t) = .strong :: tags t := by
  refine Rule.marks_of_read ?_
  simp only [tagRule, behind?_append, Option.map_some, Option.some_or]

theorem tags_strongClosing (t : Text) : tags (strongClosing ++ t) = .strongEnd :: tags t := by
  refine Rule.marks_of_read ?_
  have hopening : behind? strongOpening (strongClosing ++ t) = none := rfl
  simp only [tagRule, behind?_append, hopening, Option.map_some, Option.map_none, Option.none_or,
    Option.some_or]

theorem tags_anchorClosing (t : Text) : tags (anchorClosing ++ t) = .linkEnd :: tags t := by
  refine Rule.marks_of_read ?_
  have hopening : behind? strongOpening (anchorClosing ++ t) = none := rfl
  have hclosing : behind? strongClosing (anchorClosing ++ t) = none := rfl
  simp only [tagRule, behind?_append, hopening, hclosing, Option.map_some, Option.map_none,
    Option.none_or, Option.some_or]

theorem tags_anchorOpening (hurl : Bolded s) (hline : ↑ '\n' ∉ s) (t : Text) :
    tags (anchorOpening ++ (s ++ anchorMiddle ++ t)) = .link s :: tags t := by
  refine Rule.marks_of_read ?_
  have hopening (u : Text) : behind? strongOpening (anchorOpening ++ u) = none := rfl
  have hclosing (u : Text) : behind? strongClosing (anchorOpening ++ u) = none := rfl
  have hanchor (u : Text) : behind? anchorClosing (anchorOpening ++ u) = none := rfl
  simp only [tagRule, behind?_append, hopening, hclosing, hanchor, Option.map_none,
    Option.none_or, Option.bind_some, breakOnLine_anchorMiddle hurl hline, Option.map_some]

theorem Bolded.tags_append (hs : Bolded s) (t : Text) : tags (s ++ t) = tags s ++ tags t := by
  induction hs with
  | nil => rw [tags_nil, List.nil_append, List.nil_append]
  | char hlt _ _ ih => rw [List.cons_append, tags_cons_of_ne hlt, ih, tags_cons_of_ne hlt]
  | opening _ ih =>
    rw [List.append_assoc, tags_strongOpening, ih, tags_strongOpening, List.cons_append]
  | closing _ ih =>
    rw [List.append_assoc, tags_strongClosing, ih, tags_strongClosing, List.cons_append]

theorem Bolded.isLink_eq_false (hs : Bolded s) : ∀ tag ∈ tags s, tag.isLink = false := by
  induction hs with
  | nil =>
    rw [tags_nil]
    nofun
  | char hlt _ _ ih => rwa [tags_cons_of_ne hlt]
  | opening _ ih =>
    rw [tags_strongOpening]
    exact List.forall_mem_cons.2 ⟨rfl, ih⟩
  | closing _ ih =>
    rw [tags_strongClosing]
    exact List.forall_mem_cons.2 ⟨rfl, ih⟩

/-- The tags of a link go around those of its label. -/
theorem tags_html_append (hl : l.WithinLine) (hlabel : Bolded l.label) (hurl : Bolded l.url)
    (t : Text) :
    tags (l.html ++ t) = .link l.url :: (tags l.label ++ .linkEnd :: tags t) := by
  have hhtml : l.html ++ t =
      anchorOpening ++ (l.url ++ anchorMiddle ++ (l.label ++ (anchorClosing ++ t))) := by
    simp only [Link.html_eq, List.append_assoc]
  rw [hhtml, tags_anchorOpening hurl hl.url.notMem, hlabel.tags_append, tags_anchorClosing]

/-- A line break without tags does not change the tags. -/
theorem tags_replace (h : Linked s ls html) (hbreak : Neutral lineBreak) :
    tags (html.replace '\n' lineBreak) = tags html := by
  induction h with
  | nil => rfl
  | @char c s html ls hlt _ _ ih =>
    rw [tags_cons_of_ne hlt, ← ih]
    by_cases hc : c = '\n'
    · subst hc
      rw [Text.replace_cons_self]
      exact hbreak _
    · rw [Text.replace_cons_of_ne hc, tags_cons_of_ne hlt]
  | opening _ ih =>
    rw [Text.replace_append_of_notMem (by decide), tags_strongOpening, tags_strongOpening, ih]
  | closing _ ih =>
    rw [Text.replace_append_of_notMem (by decide), tags_strongClosing, tags_strongClosing, ih]
  | link hl hlabel hurl _ ih =>
    rw [Text.replace_append_of_notMem hl.notMem_html, tags_html_append hl hlabel hurl,
      tags_html_append hl hlabel hurl, ih]

/-- Links open and close one after the other, and only those that are found. -/
theorem filter_tags_of_linked (h : Linked s ls html) :
    (tags html).filter Tag.isLink = ls.flatMap Link.tags := by
  induction h with
  | nil => rw [tags_nil]; rfl
  | char hlt _ _ ih => rw [tags_cons_of_ne hlt, ih]
  | opening _ ih => rw [tags_strongOpening]; exact ih
  | closing _ ih => rw [tags_strongClosing]; exact ih
  | @link l s html ls hl hlabel hurl _ ih =>
    have hnone : (Markup.tags l.label).filter Tag.isLink = [] := by
      refine List.filter_eq_nil_iff.2 fun tag htag => ?_
      rw [hlabel.isLink_eq_false tag htag]
      exact Bool.false_ne_true
    have hlink :
        ((.link l.url : Tag) :: (tags l.label ++ .linkEnd :: tags html)).filter Tag.isLink =
          .link l.url :: ((tags l.label).filter Tag.isLink ++
            .linkEnd :: (tags html).filter Tag.isLink) := by
      rw [List.filter_cons_of_pos rfl, List.filter_append, List.filter_cons_of_pos rfl]
    rw [tags_html_append hl hlabel hurl, hlink, hnone, ih]
    rfl

theorem leaveOpen_append (opened : List Element) (ts us : List Tag) :
    leaveOpen opened (ts ++ us) = (leaveOpen opened ts).bind fun left => leaveOpen left us := by
  induction ts generalizing opened with
  | nil => rfl
  | cons t ts ih =>
    simp only [List.cons_append, leaveOpen]
    cases t.step opened with
    | none => rfl
    | some opened => exact ih opened

theorem Tag.step_frame {tag : Tag} (h : tag.step opened = some left) (base : List Element) :
    tag.step (opened ++ base) = some (left ++ base) := by
  cases tag with
  | strong =>
    obtain rfl := Option.some.inj h
    rfl
  | link url =>
    simp only [step] at h ⊢
    split at h
    · cases h
    · next hurl =>
      obtain rfl := Option.some.inj h
      rw [if_neg hurl]
      rfl
  | strongEnd =>
    cases opened with
    | nil => cases h
    | cons e opened =>
      cases e with
      | strong =>
        obtain rfl := Option.some.inj h
        rfl
      | link => cases h
  | linkEnd =>
    cases opened with
    | nil => cases h
    | cons e opened =>
      cases e with
      | strong => cases h
      | link =>
        obtain rfl := Option.some.inj h
        rfl

/-- What is open outside makes no difference to what is well nested. -/
theorem leaveOpen_frame (h : leaveOpen opened ts = some left) (base : List Element) :
    leaveOpen (opened ++ base) ts = some (left ++ base) := by
  induction ts generalizing opened with
  | nil =>
    obtain rfl := Option.some.inj h
    rfl
  | cons tag ts ih =>
    obtain ⟨next, hstep, hrest⟩ := Option.bind_eq_some_iff.1 h
    simp only [leaveOpen, Tag.step_frame hstep, Option.bind_some, ih hrest]

theorem WellNested.leaveOpen_eq (h : WellNested html) (base : List Element) :
    leaveOpen base (tags html) = some base := leaveOpen_frame h base

/-- Tags of bold text within a link cannot close it: they leave only bold text open, or fail. -/
theorem leaveOpen_within_link (hts : ∀ tag ∈ ts, tag.isLink = false)
    (hopened : ∀ e ∈ opened, e = .strong)
    (h : leaveOpen (opened ++ .link :: base) ts = some left) :
    ∃ strongs, left = strongs ++ .link :: base ∧ (∀ e ∈ strongs, e = .strong) ∧
      leaveOpen opened ts = some strongs := by
  induction ts generalizing opened with
  | nil =>
    obtain rfl := Option.some.inj h
    exact ⟨opened, rfl, hopened, rfl⟩
  | cons tag ts ih =>
    obtain ⟨htag, hrest⟩ := List.forall_mem_cons.1 hts
    cases tag with
    | strong =>
      have hstrongs : ∀ e ∈ Element.strong :: opened, e = .strong :=
        List.forall_mem_cons.2 ⟨rfl, hopened⟩
      exact ih hrest hstrongs h
    | strongEnd =>
      cases opened with
      | nil => cases h
      | cons e opened =>
        obtain ⟨rfl, hbelow⟩ := List.forall_mem_cons.1 hopened
        exact ih hrest hbelow h
    | link => cases htag
    | linkEnd => cases htag

/-- A link that is closed has no tag in its address, and its label leaves nothing open. -/
theorem closed_of_leaveOpen (hts : ∀ tag ∈ ts, tag.isLink = false)
    (h : (leaveOpen opened (.link s :: (ts ++ .linkEnd :: us))).isSome) :
    ↑ '<' ∉ s ∧ leaveOpen [] ts = some [] ∧ (leaveOpen opened us).isSome := by
  rw [leaveOpen, Tag.step] at h
  by_cases haddress : ↑ '<' ∈ s
  · rw [if_pos haddress] at h
    cases h
  · rw [if_neg haddress, Option.bind_some, leaveOpen_append] at h
    cases hinside : leaveOpen (.link :: opened) ts with
    | none =>
      rw [hinside] at h
      cases h
    | some left =>
      obtain ⟨strongs, rfl, hstrongs, hleft⟩ :=
        leaveOpen_within_link hts (List.forall_mem_nil _) hinside
      rw [hinside, Option.bind_some, leaveOpen] at h
      cases strongs with
      | nil => exact ⟨haddress, hleft, h⟩
      | cons e strongs =>
        -- bold text that starts in the label is still open where the link ends
        obtain ⟨rfl, -⟩ := List.forall_mem_cons.1 hstrongs
        cases h

/-- A whole link leaves open what was open before it. -/
theorem Link.Whole.leaveOpen_eq (h : l.Whole) (opened : List Element) (us : List Tag) :
    leaveOpen opened (.link l.url :: (Markup.tags l.label ++ .linkEnd :: us)) =
      leaveOpen opened us := by
  have hclose : Tag.linkEnd.step (.link :: opened) = some opened := rfl
  rw [leaveOpen, Tag.step, if_neg h.url, Option.bind_some, leaveOpen_append,
    h.label.leaveOpen_eq, Option.bind_some, leaveOpen, hclose, Option.bind_some]

/-- If all elements can be closed, every link is whole. -/
theorem whole_of_leaveOpen (h : Linked s ls html) (hopen : (leaveOpen opened (tags html)).isSome) :
    ∀ l ∈ ls, l.Whole := by
  induction h generalizing opened with
  | nil => exact List.forall_mem_nil _
  | char hlt _ _ ih =>
    rw [tags_cons_of_ne hlt] at hopen
    exact ih hopen
  | @opening s html _ _ ih =>
    rw [tags_strongOpening] at hopen
    have hinside : (leaveOpen (.strong :: opened) (tags html)).isSome := hopen
    exact ih hinside
  | closing _ ih =>
    rw [tags_strongClosing, leaveOpen] at hopen
    cases hstep : Tag.strongEnd.step opened with
    | none =>
      rw [hstep] at hopen
      cases hopen
    | some opened =>
      rw [hstep] at hopen
      exact ih hopen
  | link hl hlabel hurl _ ih =>
    rw [tags_html_append hl hlabel hurl] at hopen
    obtain ⟨haddress, hnested, hrest⟩ := closed_of_leaveOpen hlabel.isLink_eq_false hopen
    exact List.forall_mem_cons.2 ⟨⟨haddress, hnested⟩, ih hrest⟩

/-- Where every link is whole, the tags of links make no difference. -/
theorem leaveOpen_of_whole (h : Linked s ls html) (hls : ∀ l ∈ ls, l.Whole)
    (opened : List Element) : leaveOpen opened (tags html) = leaveOpen opened (tags s) := by
  induction h generalizing opened with
  | nil => rfl
  | char hlt _ _ ih => rw [tags_cons_of_ne hlt, tags_cons_of_ne hlt, ih hls]
  | opening _ ih =>
    rw [tags_strongOpening, tags_strongOpening]
    exact ih hls _
  | closing _ ih =>
    rw [tags_strongClosing, tags_strongClosing, leaveOpen, leaveOpen]
    exact congrArg _ (funext fun left => ih hls left)
  | @link l s html ls hl hlabel hurl _ ih =>
    obtain ⟨hwhole, hrest⟩ := List.forall_mem_cons.1 hls
    have hsource : l.source ++ s = ↑ '[' :: (l.label ++ (labelEnd ++ (l.url ++ (urlEnd ++ s)))) := by
      simp only [Link.source, List.cons_append, List.append_assoc]
    have htags : tags (l.source ++ s) = tags l.label ++ tags s := by
      rw [hsource, tags_cons_of_ne (by decide), hlabel.tags_append,
        tags_append_of_notMem (by decide), tags_append_of_notMem hwhole.url,
        tags_append_of_notMem (by decide)]
    rw [tags_html_append hl hlabel hurl, hwhole.leaveOpen_eq, ih hrest, htags, leaveOpen_append,
      hwhole.label.leaveOpen_eq, Option.bind_some]

theorem wellNested_bold (hlt : ↑ '<' ∉ s) : WellNested (bold s) := by
  rw [bold_eq_rewrite]
  induction s using boldRule.induction with
  | nil => rw [Rule.rewrite_nil, WellNested, tags_nil]; rfl
  | char c s hread ih =>
    obtain ⟨hc, hlt⟩ := Text.notMem_cons.1 hlt
    rw [Rule.rewrite_of_none hread, WellNested, tags_cons_of_ne hc]
    exact ih hlt
  | mark s content after hread ih =>
    obtain ⟨rfl, -⟩ := boldRule_reads.spelled hread
    simp only [boldSource, List.mem_append, not_or] at hlt
    rw [Rule.rewrite_of_read hread, WellNested, boldHtml_eq, List.append_assoc, List.append_assoc,
      tags_strongOpening, tags_append_of_notMem hlt.1.1.2, tags_strongClosing]
    exact ih hlt.2

theorem neutral_lineBreakTag : Neutral lineBreakTag := by
  have hskips : tagRule.Skips lineBreakTag :=
    Rule.skips_tag (s := "br>") tagRule_read_of_ne (by decide) fun _ => rfl
  exact hskips.marks_append

/-- What is made of a text without angle brackets is HTML whose line feeds are then replaced, by a
line break that usually has no tag of these. Its links open and close one after the other; and its
elements are properly nested, without tags in addresses, exactly if every link is whole: bold text
neither crosses the edge of a label nor reaches into an address. -/
theorem wellNested_inlineMarkup_iff (settings : Settings) (lineBreak s : Text) (hlt : ↑ '<' ∉ s)
    (hgt : ↑ '>' ∉ s) :
    ∃ html : Text,
      Render.inlineMarkup (settings.withLineBreak lineBreak) s = .ok (html.replace '\n' lineBreak) ∧
      (Neutral lineBreak → tags (html.replace '\n' lineBreak) = tags html) ∧
      (tags html).filter Tag.isLink = (linksOf s).flatMap Link.tags ∧
      (WellNested html ↔ ∀ l ∈ linksOf s, l.Whole) := by
  have hlinked := linked_of_bolded (bolded_bold hlt hgt)
  refine ⟨links (bold s), Render.inlineMarkup_withLineBreak settings lineBreak s,
    tags_replace hlinked, filter_tags_of_linked hlinked, ?_⟩
  constructor
  · intro hnested
    have hclosed : (leaveOpen [] (tags (links (bold s)))).isSome := by
      rw [hnested]
      rfl
    exact whole_of_leaveOpen hlinked hclosed
  · intro hwhole
    rw [WellNested, leaveOpen_of_whole hlinked hwhole]
    exact wellNested_bold hlt

/-- A link in bold text, and bold text in the label of a link. -/
theorem wellNested_inlineMarkup_iff_wholeLinks :
    ↑ '<' ∉ ("**[a](b)** [**c**](d)" : Text) ∧ ↑ '>' ∉ ("**[a](b)** [**c**](d)" : Text) ∧
      ∃ html, Render.inlineMarkup .default "**[a](b)** [**c**](d)" = .ok html ∧
        WellNested html := by
  have hlt : ↑ '<' ∉ ("**[a](b)** [**c**](d)" : Text) := by decide
  have hgt : ↑ '>' ∉ ("**[a](b)** [**c**](d)" : Text) := by decide
  have hlinks : linksOf "**[a](b)** [**c**](d)" = [⟨"a", "b"⟩, ⟨"<strong>c</strong>", "d"⟩] := by
    decide +kernel
  have hwhole : ∀ l ∈ linksOf "**[a](b)** [**c**](d)", l.Whole := by
    rw [hlinks]
    exact List.forall_mem_cons.2 ⟨⟨by decide, by decide +kernel⟩,
      List.forall_mem_cons.2 ⟨⟨by decide, by decide +kernel⟩, List.forall_mem_nil _⟩⟩
  obtain ⟨html, hhtml, htags, -, hiff⟩ :=
    wellNested_inlineMarkup_iff .default lineBreakTag _ hlt hgt
  refine ⟨hlt, hgt, _, hhtml, ?_⟩
  rw [WellNested, htags neutral_lineBreakTag]
  exact hiff.2 hwhole

/-- Not all texts give properly nested elements: bold text that ends within a label is closed within
the link, although it is opened before it. -/
theorem not_wellNested_crossing :
    ¬ ∀ s : Text, ↑ '<' ∉ s → ↑ '>' ∉ s →
      ∃ html, Render.inlineMarkup .default s = .ok html ∧ WellNested html := by
  intro hnested
  obtain ⟨html, hhtml, hwell⟩ := hnested "**[a**](b)" (by decide) (by decide)
  have hinline := Render.inlineMarkup_withLineBreak .default lineBreakTag "**[a**](b)"
  obtain rfl := Except.ok.inj (hhtml.symm.trans hinline)
  have hcrossed : ¬ WellNested (inline lineBreakTag "**[a**](b)") := by decide +kernel
  exact hcrossed hwell

/-- Nor is bold text in an address properly nested. -/
example : ¬ WellNested (inline lineBreakTag "[a](**b**)") := by decide +kernel

end Stencil.Markup
