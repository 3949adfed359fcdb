import Stencil.Proofs.Markup.Rule
import Stencil.Render
/-! Bold text and links as rules: what they are spelled like, that every bold text and every link on
a line is found, and that what follows the line does not matter. -/
namespace Stencil

def Settings.withLineBreak (settings : Settings) (lineBreak : Text) : Settings :=
  { settings with lineBreak := .str lineBreak }

namespace Markup

variable {s t content after : Text}

theorem withinLine_boldMark : WithinLine boldMark := ⟨by decide, by decide⟩

def labelEnd : Text := "]("

def urlEnd : Text := ")"

theorem withinLine_labelEnd : WithinLine labelEnd := ⟨by decide, by decide⟩

theorem withinLine_urlEnd : WithinLine urlEnd := ⟨by decide, by decide⟩

/-- Bold text as it is written in markup. -/
def boldSource (content : Text) : Text := boldMark ++ content ++ boldMark

/-- The usual line break. -/
def lineBreakTag : Text := "<br>"

def strongOpening : Text := "<strong>"

def strongClosing : Text := "</strong>"

def boldHtml (content : Text) : Text := element "strong" content

theorem boldHtml_eq (content : Text) :
    boldHtml content = strongOpening ++ content ++ strongClosing := by
  have hopening : strongOpening = ↑ '<' :: (("strong" : Text) ++ ([↑ '>'] : Text)) := by decide
  have hclosing : strongClosing = "</" ++ ("strong" ++ ">") := by decide
  rw [hopening, hclosing, boldHtml, element]
  simp only [List.append_assoc, List.cons_append, List.nil_append]

def boldRule : Rule Text where
  read s := (behind? boldMark s).bind (spanTo boldMark)
  shorter {s content after} h := by
    obtain ⟨rest, hs, hspan⟩ := Option.bind_eq_some_iff.1 h
    exact Nat.lt_trans (length_lt_of_spanTo hspan)
      (length_lt_of_behind? withinLine_boldMark.ne_nil hs)

theorem boldRule_reads : boldRule.Reads boldSource WithinLine where
  spelled {s content after} h := by
    obtain ⟨rest, hs, hspan⟩ := Option.bind_eq_some_iff.1 h
    obtain rfl := behind?_eq_some_iff.1 hs
    obtain ⟨rfl, hcontent⟩ := eq_of_spanTo hspan
    exact ⟨by simp only [boldSource, List.append_assoc], hcontent⟩
  found {content} h t := by
    have hsource : boldSource content ++ t = boldMark ++ (content ++ boldMark ++ t) := by
      simp only [boldSource, List.append_assoc]
    obtain ⟨_, v, hspan, -⟩ := exists_spanTo withinLine_boldMark h t
    simp only [boldRule, hsource, behind?_append, Option.bind_some, hspan, Option.isSome_some]

theorem boldRule_keepsToLine : boldRule.KeepsToLine := by
  intro s t
  simp only [boldRule, behind?_append_newline withinLine_boldMark.notMem]
  cases behind? boldMark s with
  | none => rfl
  | some rest => exact spanTo_append_newline withinLine_boldMark rest t

theorem boldRule_read_cons {c : CodePoint} (hmark : boldMark.isPrefixOf (c :: s)) :
    boldRule.read (c :: s) = spanTo boldMark (s.drop 1) := by
  simp only [boldRule, behind?, hmark, if_true]
  rfl

theorem bold_eq_rewrite (s : Text) : bold s = boldRule.rewrite boldHtml s := by
  induction s using boldRule.induction with
  | nil => simp [bold]
  | char c s hread ih =>
    rw [Rule.rewrite_of_none hread, ← ih, bold]
    split
    · next hmark =>
      rw [boldRule_read_cons hmark] at hread
      split
      · next hspan => rw [hread] at hspan; cases hspan
      · rfl
    · rfl
  | mark s content after hread ih =>
    rw [Rule.rewrite_of_read hread, ← ih]
    obtain ⟨rfl, -⟩ := boldRule_reads.spelled hread
    have hmark : boldMark.isPrefixOf (boldSource content ++ after) :=
      List.isPrefixOf_iff_prefix.2 ⟨content ++ boldMark ++ after, by simp [boldSource]⟩
    obtain ⟨c, rest, hs⟩ : ∃ c rest, boldSource content ++ after = c :: rest := ⟨_, _, rfl⟩
    rw [hs] at hread hmark ⊢
    rw [boldRule_read_cons hmark] at hread
    rw [bold, if_pos hmark]
    split
    · next hspan =>
      rw [hread] at hspan
      obtain ⟨rfl, rfl⟩ := Prod.mk.inj (Option.some.inj hspan)
      rfl
    · next hspan => rw [hread] at hspan; cases hspan

def anchorOpening : Text := "<a href=\""

def anchorMiddle : Text := "\" target=\"_blank\" rel=\"noopener\">"

def anchorClosing : Text := "</a>"

/-- A link: what is shown, and where it leads. -/
structure Link where
  label : Text
  url : Text
deriving DecidableEq

namespace Link

/-- A link as it is written in markup. -/
def source (l : Link) : Text := ↑ '[' :: l.label ++ labelEnd ++ l.url ++ urlEnd

def html (l : Link) : Text := anchor l.label l.url

theorem html_eq (l : Link) :
    l.html = anchorOpening ++ l.url ++ anchorMiddle ++ l.label ++ anchorClosing := rfl

structure WithinLine (l : Link) : Prop where
  label : Markup.WithinLine l.label
  url : Markup.WithinLine l.url

end Link

theorem linkParts?_eq_bind (s : Text) :
    linkParts? s = (spanTo labelEnd s).bind fun (label, rest) =>
      (spanTo urlEnd rest).map fun (url, after) => (label, url, after) := by
  rw [linkParts?]
  cases hlabel : spanTo labelEnd s with
  | none =>
    have hspan : spanTo "](" s = none := hlabel
    rw [hspan]
    rfl
  | some found =>
    have hspan : spanTo "](" s = some found := hlabel
    rw [hspan]
    rfl

theorem eq_of_linkParts? {label url : Text} (h : linkParts? s = some (label, url, after)) :
    s = label ++ labelEnd ++ url ++ urlEnd ++ after ∧ WithinLine label ∧ WithinLine url := by
  rw [linkParts?_eq_bind] at h
  obtain ⟨⟨x, rest⟩, hlabel, h⟩ := Option.bind_eq_some_iff.1 h
  obtain ⟨⟨y, z⟩, hurl, h⟩ := Option.map_eq_some_iff.1 h
  obtain ⟨rfl, rfl, rfl⟩ : x = label ∧ y = url ∧ z = after := by simpa using h
  obtain ⟨hs, hlabel⟩ := eq_of_spanTo hlabel
  obtain ⟨hrest, hurl⟩ := eq_of_spanTo hurl
  exact ⟨by rw [hs, hrest]; simp only [List.append_assoc], hlabel, hurl⟩

/-- The first closing of a label will do: what follows it goes on to the address that was meant. -/
theorem isSome_linkParts? {label url : Text} (hlabel : WithinLine label) (hurl : WithinLine url)
    (t : Text) : (linkParts? (label ++ labelEnd ++ (url ++ urlEnd ++ t))).isSome := by
  obtain ⟨x, v, hspan, hv⟩ := exists_spanTo withinLine_labelEnd hlabel (url ++ urlEnd ++ t)
  have hrest : WithinLine (v ++ url) := by
    constructor
    · intro hnil
      exact hurl.ne_nil (List.append_eq_nil_iff.1 hnil).2
    · rw [List.mem_append, not_or]
      exact ⟨hv, hurl.notMem⟩
  obtain ⟨y, w, hspan', -⟩ := exists_spanTo withinLine_urlEnd hrest t
  have hassoc : v ++ (url ++ urlEnd ++ t) = v ++ url ++ urlEnd ++ t := by
    simp only [List.append_assoc]
  rw [hassoc] at hspan
  simp only [linkParts?_eq_bind, hspan, Option.bind_some, hspan', Option.map_some,
    Option.isSome_some]

theorem linkParts?_append_newline (s t : Text) :
    linkParts? (s ++ ↑ '\n' :: t) =
      (linkParts? s).map fun (label, url, after) => (label, url, after ++ ↑ '\n' :: t) := by
  rw [linkParts?_eq_bind, linkParts?_eq_bind, spanTo_append_newline withinLine_labelEnd]
  cases hlabel : spanTo labelEnd s with
  | none => rfl
  | some found =>
    obtain ⟨label, rest⟩ := found
    simp only [Option.map_some, Option.bind_some, spanTo_append_newline withinLine_urlEnd]
    cases spanTo urlEnd rest <;> rfl

def linkRule : Rule Link where
  read
    | [] => none
    | c :: s =>
      if c = '[' then (linkParts? s).map fun (label, url, after) => (⟨label, url⟩, after)
      else none
  shorter {s x after} h := by
    cases s with
    | nil => cases h
    | cons c s =>
      simp only at h
      split at h
      · obtain ⟨⟨label, url, rest⟩, hparts, h⟩ := Option.map_eq_some_iff.1 h
        obtain ⟨-, rfl⟩ := Prod.mk.inj h
        exact Nat.lt_succ_of_lt (length_lt_of_linkParts? hparts)
      · cases h

theorem linkRule_read_bracket (s : Text) :
    linkRule.read (↑ '[' :: s) =
      (linkParts? s).map fun (label, url, after) => (⟨label, url⟩, after) := by
  simp only [linkRule, if_true]

theorem linkRule_read_of_ne {c : CodePoint} (hc : c ≠ '[') (s : Text) :
    linkRule.read (c :: s) = none := by
  simp only [linkRule, hc, if_false]

theorem linkRule_reads : linkRule.Reads Link.source Link.WithinLine where
  spelled {s l after} h := by
    cases s with
    | nil => cases h
    | cons c s =>
      by_cases hc : c = '['
      · subst hc
        rw [linkRule_read_bracket] at h
        obtain ⟨⟨label, url, rest⟩, hparts, h⟩ := Option.map_eq_some_iff.1 h
        obtain ⟨rfl, rfl⟩ := Prod.mk.inj h
        obtain ⟨rfl, hlabel, hurl⟩ := eq_of_linkParts? hparts
        exact ⟨rfl, hlabel, hurl⟩
      · rw [linkRule_read_of_ne hc] at h
        cases h
  found {l} h t := by
    have hsource : l.source ++ t = ↑ '[' :: (l.label ++ labelEnd ++ (l.url ++ urlEnd ++ t)) := by
      simp only [Link.source, List.cons_append, List.append_assoc]
    rw [hsource, linkRule_read_bracket, Option.isSome_map]
    exact isSome_linkParts? h.label h.url t

theorem linkRule_keepsToLine : linkRule.KeepsToLine := by
  intro s t
  cases s with
  | nil => rfl
  | cons c s =>
    by_cases hc : c = '['
    · subst hc
      rw [List.cons_append, linkRule_read_bracket, linkRule_read_bracket,
        linkParts?_append_newline]
      cases linkParts? s <;> rfl
    · rw [List.cons_append, linkRule_read_of_ne hc, linkRule_read_of_ne hc]
      rfl

theorem links_eq_rewrite (s : Text) : links s = linkRule.rewrite Link.html s := by
  induction s using linkRule.induction with
  | nil => simp [links]
  | char c s hread ih =>
    rw [Rule.rewrite_of_none hread, ← ih, links]
    split
    · next hc =>
      subst hc
      rw [linkRule_read_bracket, Option.map_eq_none_iff] at hread
      split
      · next hparts => rw [hread] at hparts; cases hparts
      · rfl
    · rfl
  | mark s l after hread ih =>
    rw [Rule.rewrite_of_read hread, ← ih]
    obtain ⟨rfl, -⟩ := linkRule_reads.spelled hread
    have hsource : l.source ++ after =
        ↑ '[' :: (l.label ++ labelEnd ++ l.url ++ urlEnd ++ after) := rfl
    rw [hsource, linkRule_read_bracket] at hread
    obtain ⟨⟨label, url, rest⟩, hparts, h⟩ := Option.map_eq_some_iff.1 hread
    obtain ⟨rfl, rfl⟩ := Prod.mk.inj h
    rw [hsource, links, if_pos rfl]
    split
    · next hfound =>
      rw [hparts] at hfound
      obtain ⟨rfl, rfl, rfl⟩ : label = _ ∧ url = _ ∧ rest = _ := by simpa using hfound
      rfl
    · next hfound => rw [hparts] at hfound; cases hfound

theorem inline_nil (lineBreak : Text) : inline lineBreak [] = [] := by
  simp [inline, links_eq_rewrite, bold_eq_rewrite]

end Markup

/-- With a text for a line break, every text is converted. -/
theorem Render.inlineMarkup_withLineBreak (settings : Settings) (lineBreak s : Text) :
    inlineMarkup (settings.withLineBreak lineBreak) s = .ok (Markup.inline lineBreak s) := by
  cases s with
  | nil => rw [Markup.inline_nil]; rfl
  | cons c s => rfl

end Stencil
