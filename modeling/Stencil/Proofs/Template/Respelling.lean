import Stencil.Proofs.Template.Grammar
import Stencil.Proofs.Template.Tokens
/-! Every tag has one canonical spelling. A source in which all tags are spelled so is divided at the
same places and asks for the same. -/
namespace Stencil

namespace Text

variable {c : CodePoint} {s t u : Text}

theorem isSuffix_stripStart (s : Text) : stripStart s <:+ s := List.dropWhile_suffix _

theorem isPrefix_stripEnd (s : Text) : stripEnd s <+: s := by
  have h : (stripStart s.reverse).reverse <+: s.reverse.reverse :=
    List.reverse_prefix.2 (isSuffix_stripStart s.reverse)
  rwa [List.reverse_reverse] at h

theorem isInfix_strip (s : Text) : strip s <:+: s :=
  (isPrefix_stripEnd _).isInfix.trans (isSuffix_stripStart s).isInfix

theorem head_stripStart (s : Text) : ∀ c ∈ (stripStart s).head?, isBlank c = false := by
  intro c hc
  have h := List.head?_dropWhile_not isBlank s
  rw [stripStart] at hc
  rw [hc] at h
  exact h

theorem trimmed_strip (s : Text) : Trimmed (strip s) := by
  constructor
  · intro c hc
    obtain ⟨rest, hrest⟩ := isPrefix_stripEnd (stripStart s)
    refine head_stripStart s c ?_
    rw [← hrest, List.head?_append]
    exact Option.or_eq_some_iff.2 (.inl hc)
  · intro c hc
    refine head_stripStart (stripStart s).reverse c ?_
    simpa [strip, stripEnd, stripStart] using hc

/-- Blanks on either side of a trimmed text are removed. -/
theorem strip_surrounded (hl : ∀ c ∈ t, isBlank c) (hr : ∀ c ∈ u, isBlank c) (h : Trimmed s) :
    strip (t ++ s ++ u) = s := by
  have hstart : stripStart (t ++ s ++ u) = stripStart (s ++ u) := by
    rw [List.append_assoc]
    exact List.dropWhile_append_of_pos hl
  have hend : stripEnd (s ++ u) = stripEnd s := by
    have hr : ∀ c ∈ u.reverse, isBlank c := fun c hc => hr c (List.mem_reverse.1 hc)
    rw [stripEnd, List.reverse_append, List.dropWhile_append_of_pos hr]
    rfl
  cases s with
  | nil =>
    have hblank : stripStart (u ++ []) = [] := List.dropWhile_append_of_pos hr
    rw [List.append_nil] at hblank
    rw [strip, hstart, List.nil_append, hblank]
    rfl
  | cons c s =>
    have hc : ∀ d ∈ (c :: s ++ u).head?, isBlank d = false := h.1
    rw [strip, hstart, stripStart_of_head hc, hend, stripEnd_of_last h.2]

/-- A blank behind a trimmed text is removed. -/
theorem strip_append_blank (h : Trimmed s) : strip (s ++ ([' '] : Text)) = s :=
  strip_surrounded (t := []) nofun (List.forall_mem_singleton.2 rfl) h

/-- A trimmed text stays trimmed behind a text that starts with no blank. -/
theorem Trimmed.append (hs : Trimmed s) (hne : s ≠ []) (hc : isBlank c = false) (t : Text) :
    Trimmed ((c :: t) ++ s) := by
  refine ⟨?_, ?_⟩
  · rintro d ⟨⟩
    exact hc
  · intro d hd
    refine hs.2 d ?_
    rwa [List.getLast?_append_of_ne_nil _ hne] at hd

/-- Two texts with no pair make none if its halves do not meet. -/
theorem not_pair_append (hs : ¬ [c, c] <:+: s) (ht : ¬ [c, c] <:+: t)
    (hseam : ¬ (s.getLast? = some c ∧ t.head? = some c)) : ¬ [c, c] <:+: s ++ t := by
  rw [← breakPair_eq_none_iff] at hs ht ⊢
  rw [breakPair_append_of_none hs hseam, ht]
  rfl

end Text

namespace Lexeme

variable {l : Lexeme} {s v word argument content : Text}

/-- The canonical spelling of a lexeme: text as it is, and a tag with one blank between its word and
its argument and one behind that. -/
def piece : Lexeme → Piece
  | .leaf (.text s) => .text s
  | .leaf (.value v) => .tag (" " ++ v ++ " ")
  | .leaf (.inclusion v) => .tag ("> " ++ v ++ " ")
  | .leaf (.markdown false v) => .tag ("md " ++ v ++ " ")
  | .leaf (.markdown true v) => .tag ("mdi " ++ v ++ " ")
  | .leaf (.json v) => .tag ("json " ++ v ++ " ")
  | .eachOpen v => .tag ("#each " ++ v ++ " ")
  | .ifOpen v => .tag ("#if " ++ v ++ " ")
  | .eachClose => .tag eachCloseWord
  | .ifClose => .tag ifCloseWord
  | .otherwise => .tag "else"
  | .finish => .text []

/-- What a tag with a word means. Only blocks do without an argument. -/
inductive Worded : Text → Text → Lexeme → Prop
  | eachOpen (v : Text) : Worded eachWord v (.eachOpen v)
  | ifOpen (v : Text) : Worded ifWord v (.ifOpen v)
  | eachClose (v : Text) : Worded eachCloseWord v .eachClose
  | ifClose (v : Text) : Worded ifCloseWord v .ifClose
  | block {v : Text} (hv : v ≠ []) : Worded "md" v (.leaf (.markdown false v))
  | inline {v : Text} (hv : v ≠ []) : Worded "mdi" v (.leaf (.markdown true v))
  | json {v : Text} (hv : v ≠ []) : Worded "json" v (.leaf (.json v))

theorem worded_of_ofWord? (h : ofWord? word argument = some l) : Worded word argument l := by
  unfold ofWord? at h
  split at h
  · next hword => exact Option.some.inj h ▸ hword ▸ .eachOpen argument
  split at h
  · next hword => exact Option.some.inj h ▸ hword ▸ .ifOpen argument
  split at h
  · next hword => exact Option.some.inj h ▸ hword ▸ .eachClose argument
  split at h
  · next hword => exact Option.some.inj h ▸ hword ▸ .ifClose argument
  split at h
  · cases h
  next hempty =>
  have hargument : argument ≠ [] := mt List.isEmpty_iff.2 hempty
  split at h
  · next hword => exact Option.some.inj h ▸ hword ▸ .block hargument
  split at h
  · next hword => exact Option.some.inj h ▸ hword ▸ .inline hargument
  split at h
  · next hword => exact Option.some.inj h ▸ hword ▸ .json hargument
  · cases h

theorem Worded.ofWord? (h : Worded word argument l) : ofWord? word argument = some l := by
  cases h with
  | eachOpen | ifOpen | eachClose | ifClose => rfl
  | block hv | inline hv | json hv =>
    unfold Lexeme.ofWord?
    rw [if_neg (mt List.isEmpty_iff.1 hv)]
    rfl

/-- The argument of a tag is some of its content without blanks around it. -/
theorem exists_splitWord (content : Text) :
    ∃ rest, (splitWord content).2 = Text.strip rest ∧ rest <:+ content := by
  unfold splitWord
  split
  · next word blank rest hsplit =>
    refine ⟨rest, rfl, word ++ [blank], ?_⟩
    rw [List.append_assoc, List.singleton_append, Text.append_of_splitWhile hsplit]
  · exact ⟨_, rfl, List.dropWhile_suffix _⟩

/-- A word ends at a space. -/
theorem splitWord_space (hword : ↑ ' ' ∉ word) (rest : Text) :
    splitWord (word ++ ↑ ' ' :: rest) = (word, Text.strip rest) := by
  have hsplit : Text.splitWhile (· ≠ ' ') (word ++ ↑ ' ' :: rest) = (word, ↑ ' ' :: rest) :=
    Text.splitWhile_append (fun c hc => by simpa using ne_of_mem_of_not_mem hc hword)
      (by rintro c ⟨⟩; rfl)
  rw [splitWord, hsplit]

/-- Where there is no space at all, a word ends at a blank of another kind. -/
theorem splitWord_blank {rest : Text} (hword : ∀ c ∈ word, Text.isBlank c = false)
    (hrest : ∀ c ∈ rest.head?, Text.isBlank c) (hspace : ↑ ' ' ∉ word ++ rest) :
    splitWord (word ++ rest) = (word, Text.strip rest) := by
  have hnone : Text.splitWhile (· ≠ ' ') (word ++ rest ++ []) = (word ++ rest, []) :=
    Text.splitWhile_append (fun c hc => by simpa using ne_of_mem_of_not_mem hc hspace) nofun
  have hsplit : Text.splitWhile (!Text.isBlank ·) (word ++ rest) = (word, rest) :=
    Text.splitWhile_append (fun c hc => by simp [hword c hc]) fun c hc => by simp [hrest c hc]
  rw [List.append_nil] at hnone
  rw [splitWord, hnone]
  simp only [hsplit]

/-- What a tag can mean: a partial, a block or leaf with a word, an else or a value. -/
inductive Meaning (content : Text) : Lexeme → Prop
  | inclusion {name : Text} (h : content = ↑ '>' :: name) :
    Meaning content (.leaf (.inclusion (Text.strip name)))
  | worded {l : Lexeme} (h : Worded (splitWord content).1 (splitWord content).2 l) :
    Meaning content l
  | otherwise (h : content = "else") : Meaning content .otherwise
  | value : Meaning content (.leaf (.value content))

theorem meaning_ofContent (content : Text) : Meaning content (ofContent content) := by
  unfold ofContent
  split
  · exact .inclusion rfl
  · dsimp only
    split
    · next l hword => exact .worded (worded_of_ofWord? hword)
    · split
      · next helse => exact .otherwise helse
      · exact .value

theorem Worded.argument_eq (h : Worded word v l) : l.argument = v ∨ l.argument = [] := by
  cases h with
  | eachOpen | ifOpen | block | inline | json => exact .inl rfl
  | eachClose | ifClose => exact .inr rfl

/-- The argument of what a tag asks for has no blanks around it, and stands in the tag. -/
theorem argument_ofContent (h : Text.Trimmed content) :
    Text.Trimmed (ofContent content).argument ∧ (ofContent content).argument <:+: content := by
  have hnil : Text.Trimmed [] ∧ [] <:+: content := ⟨⟨nofun, nofun⟩, List.nil_infix⟩
  generalize hl : ofContent content = l
  cases hl ▸ meaning_ofContent content with
  | @inclusion name hname =>
    refine ⟨Text.trimmed_strip name, (Text.isInfix_strip name).trans ?_⟩
    exact hname ▸ (List.suffix_cons ↑ '>' name).isInfix
  | worded hword =>
    obtain ⟨rest, hrest, hsuffix⟩ := exists_splitWord content
    rcases hword.argument_eq with harg | harg
    · rw [harg, hrest]
      exact ⟨Text.trimmed_strip rest, (Text.isInfix_strip rest).trans hsuffix.isInfix⟩
    · exact harg ▸ hnil
  | otherwise => exact hnil
  | value => exact ⟨h, List.infix_rfl⟩

/-- A tag that is divided into a word and an argument asks for what these mean. -/
theorem Worded.ofContent_of_splitWord (h : Worded word v l) (hsplit : splitWord content = (word, v))
    (hfirst : content.head? ≠ some ↑ '>') : ofContent content = l := by
  unfold ofContent
  split
  · exact absurd rfl hfirst
  · simp only [hsplit, h.ofWord?]

/-- A word, a blank and an argument ask for the same as any tag with that word and argument. -/
theorem Worded.ofContent (h : Worded word v l) (hv : Text.Trimmed v) :
    ofContent (word ++ ↑ ' ' :: v) = l := by
  have hspace : ↑ ' ' ∉ word := by cases h <;> decide
  have hsplit := splitWord_space hspace v
  rw [Text.strip_of_trimmed hv] at hsplit
  refine h.ofContent_of_splitWord hsplit ?_
  cases h <;> nofun

/-- Of the blanks of a canonical spelling only the one behind the word is kept. -/
theorem strip_spelling {c : CodePoint} (hc : Text.isBlank c = false) (hv : Text.Trimmed v) (hne : v ≠ [])
    (word : Text) : Text.strip ((c :: word) ++ " " ++ v ++ " ") = (c :: word) ++ ↑ ' ' :: v := by
  have htrimmed : Text.Trimmed ((c :: word) ++ ↑ ' ' :: v) := by
    simpa using hv.append hne hc (word ++ ([' '] : Text))
  simpa using Text.strip_append_blank htrimmed

theorem Worded.ofContent_spelling (h : Worded word v l) (hv : Text.Trimmed v) (hne : v ≠ []) :
    Lexeme.ofContent (Text.strip (word ++ " " ++ v ++ " ")) = l := by
  obtain ⟨c, rest, rfl, hc⟩ : ∃ c rest, word = c :: rest ∧ Text.isBlank c = false := by
    cases h <;> exact ⟨_, _, rfl, rfl⟩
  rw [strip_spelling hc hv hne]
  exact h.ofContent hv

theorem Worded.exists_piece (h : Worded word v l) (hv : Text.Trimmed l.argument)
    (hbare : l.bareMark? = none) :
    ∃ spelled, l.piece = .tag spelled ∧ Lexeme.ofContent (Text.strip spelled) = l := by
  have hspelling := fun hv hne => h.ofContent_spelling hv hne
  cases h with
  | eachOpen | ifOpen =>
    have hne : v ≠ [] := by
      rintro rfl
      cases hbare
    exact ⟨_, rfl, hspelling hv hne⟩
  | eachClose | ifClose => exact ⟨_, rfl, rfl⟩
  | block hne | inline hne | json hne => exact ⟨_, rfl, hspelling hv hne⟩

/-- The canonical spelling of what a tag asks for, if the tag is not bare, asks for the same. -/
theorem exists_piece_ofContent (h : Text.Trimmed content)
    (hbare : (ofContent content).bareMark? = none) :
    ∃ spelled, (ofContent content).piece = .tag spelled ∧
      ofContent (Text.strip spelled) = ofContent content := by
  have hargument := (argument_ofContent h).1
  generalize hl : ofContent content = l at hargument hbare
  cases hl ▸ meaning_ofContent content with
  | @inclusion name hname =>
    have hne : Text.strip name ≠ [] := by
      intro hnil
      rw [hnil] at hbare
      cases hbare
    have hspelled : Text.strip ("> " ++ Text.strip name ++ " ") = ↑ '>' :: ↑ ' ' :: Text.strip name :=
      strip_spelling rfl hargument hne []
    refine ⟨_, rfl, ?_⟩
    rw [hspelled]
    exact congrArg (fun v => Lexeme.leaf (.inclusion v)) (Text.strip_of_trimmed hargument)
  | worded hword => exact hword.exists_piece hargument hbare
  | otherwise => exact ⟨_, rfl, rfl⟩
  | value =>
    refine ⟨_, rfl, ?_⟩
    have hblank : ∀ c ∈ [↑ ' '], Text.isBlank c := List.forall_mem_singleton.2 rfl
    have hstrip : Text.strip (" " ++ content ++ " ") = content :=
      Text.strip_surrounded hblank hblank h
    rw [hstrip, hl]

theorem exists_piece_of_isTag (h : l.isTag) : ∃ spelled, l.piece = .tag spelled := by
  cases l with
  | finish => cases h
  | eachOpen | eachClose | ifOpen | ifClose | otherwise => exact ⟨_, rfl⟩
  | leaf a =>
    cases a with
    | text => cases h
    | markdown inline v => cases inline <;> exact ⟨_, rfl⟩
    | value | inclusion | json => exact ⟨_, rfl⟩

/-- A tag ends where its content does if there is no closing brace in the front of it and no pair of
them from there on. -/
theorem proper_front (hword : ↑ '\x7d' ∉ word) (hv : ¬ closeBraces <:+: v ++ (['\x7d'] : Text)) :
    (Piece.tag (word ++ v)).Proper := by
  have hstart : ¬ [↑ '\x7d', ↑ '\x7d'] <:+: word := fun hpair =>
    hword (hpair.subset List.mem_cons_self)
  have hlast : word.getLast? ≠ some ↑ '\x7d' := fun hlast =>
    hword (List.mem_of_getLast? hlast)
  rw [Piece.proper_tag_iff, List.append_assoc]
  exact Text.not_pair_append hstart hv fun hseam => hlast hseam.1

/-- A tag ends where its spelling does if there are no closing braces in its argument. -/
theorem proper_spelling (hword : ↑ '\x7d' ∉ word) (hv : ¬ closeBraces <:+: v) :
    (Piece.tag (word ++ v ++ " ")).Proper := by
  have hend : ¬ [↑ '\x7d', ↑ '\x7d'] <:+: v ++ ([' '] : Text) ++ (['\x7d'] : Text) := by
    rw [List.append_assoc]
    exact Text.not_pair_append hv (by decide) (by simp)
  rw [List.append_assoc]
  exact proper_front hword hend

theorem proper_piece (h : l.isTag) (hv : ¬ closeBraces <:+: l.argument) : l.piece.Proper := by
  have hfixed {content : Text} (hcontent : ¬ [↑ '\x7d', ↑ '\x7d'] <:+: content ++ (['\x7d'] : Text)) :
      (Piece.tag content).Proper := Piece.proper_tag_iff.2 hcontent
  cases l with
  | finish => cases h
  | eachOpen | ifOpen => exact proper_spelling (by decide) hv
  | eachClose | ifClose | otherwise => exact hfixed (by decide)
  | leaf a =>
    cases a with
    | text => cases h
    | markdown inline v => cases inline <;> exact proper_spelling (by decide) hv
    | value | inclusion | json => exact proper_spelling (by decide) hv

end Lexeme

namespace Piece

variable {p q : Piece} {ps : List Piece} {l m : Lexeme} {ls : List Lexeme}

theorem isTag_of_lexeme? {content : Text} (h : (tag content).lexeme? = some l) : l.isTag := by
  simp only [lexeme?] at h
  split at h
  · cases h
  · exact Option.some.inj h ▸ Lexeme.isTag_ofContent _

/-- The canonical spelling of a part is a part, and asks for the same. -/
theorem canonical (hp : p.Proper) (hl : p.lexeme? = some l) :
    l.piece.Proper ∧ l.piece.lexeme? = some l := by
  cases p with
  | unclosed rest => cases hl
  | text content =>
    obtain rfl := Option.some.inj hl
    exact ⟨hp, rfl⟩
  | tag content =>
    simp only [lexeme?] at hl
    split at hl
    · cases hl
    · next hbare =>
      obtain rfl := Option.some.inj hl
      have hbare := Option.not_isSome_iff_eq_none.1 hbare
      have htrimmed := Text.trimmed_strip content
      obtain ⟨spelled, hpiece, hsame⟩ := Lexeme.exists_piece_ofContent htrimmed hbare
      refine ⟨Lexeme.proper_piece (Lexeme.isTag_ofContent _) fun hpair => ?_, ?_⟩
      · refine proper_tag_iff.1 hp (hpair.trans ?_)
        exact ((Lexeme.argument_ofContent htrimmed).2.trans (Text.isInfix_strip content)).trans
          (List.prefix_append content _).isInfix
      · rw [hpiece, lexeme?, hsame, hbare]
        rfl

/-- The canonical spellings of two parts may follow each other if the parts may. -/
theorem meets_canonical (h : Meets p q) (hp : p.lexeme? = some l) (hq : q.lexeme? = some m) :
    Meets l.piece m.piece := by
  cases p with
  | unclosed rest => cases hp
  | tag content =>
    obtain ⟨spelled, hpiece⟩ := Lexeme.exists_piece_of_isTag (isTag_of_lexeme? hp)
    rw [hpiece]
    trivial
  | text content =>
    obtain rfl := Option.some.inj hp
    refine ⟨fun other hother => ?_, h.2⟩
    cases q with
    | text other => exact h.1 other rfl
    | unclosed rest => cases hq
    | tag content =>
      obtain ⟨spelled, hpiece⟩ := Lexeme.exists_piece_of_isTag (isTag_of_lexeme? hq)
      rw [hpiece] at hother
      cases hother

/-- Whether what two parts ask for, if they ask for anything, may be spelled one after the other. -/
def MayFollow (a b : Option Lexeme) : Prop := ∀ l ∈ a, ∀ m ∈ b, Meets l.piece m.piece

theorem exists_of_mem_lexemes (hls : ps.map lexeme? = ls.map some) (hl : l ∈ ls) :
    ∃ p ∈ ps, p.lexeme? = some l := by
  have hmem : some l ∈ ps.map lexeme? := hls ▸ List.mem_map_of_mem hl
  exact List.mem_map.1 hmem

/-- Parts spelled canonically are a decomposition of what they spell. -/
theorem decomposition_canonical (hproper : ∀ p ∈ ps, p.Proper) (hmeets : ps.IsChain Meets)
    (hls : ps.map lexeme? = ls.map some) :
    Decomposition ((ls.map Lexeme.piece).flatMap raw) (ls.map Lexeme.piece) := by
  refine ⟨rfl, List.forall_mem_map.2 fun l hl => ?_, ?_⟩
  · obtain ⟨p, hp, hpl⟩ := exists_of_mem_lexemes hls hl
    exact (canonical (hproper p hp) hpl).1
  · have hparts : (ps.map lexeme?).IsChain MayFollow := by
      rw [List.isChain_map]
      exact hmeets.imp fun p q hpq l hl m hm => meets_canonical hpq hl hm
    rw [hls, List.isChain_map] at hparts
    rw [List.isChain_map]
    exact hparts.imp fun l m hlm => hlm l rfl m rfl

/-- A source of such parts is divided into them. -/
theorem divide_canonical (hproper : ∀ p ∈ ps, p.Proper) (hmeets : ps.IsChain Meets)
    (hls : ps.map lexeme? = ls.map some) :
    divide ((ls.map Lexeme.piece).flatMap raw) = ls.map Lexeme.piece ∧
      (ls.map Lexeme.piece).map lexeme? = ls.map some := by
  refine ⟨divide_of_decomposition (decomposition_canonical hproper hmeets hls), ?_⟩
  rw [List.map_map]
  refine List.map_congr_left fun l hl => ?_
  obtain ⟨p, hp, hpl⟩ := exists_of_mem_lexemes hls hl
  exact (canonical (hproper p hp) hpl).2

end Piece
end Stencil
