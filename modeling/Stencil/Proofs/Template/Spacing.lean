import Stencil.Proofs.Template.Respelling
/-! Blanks between the word of a tag and its argument: which of them part the two, and what a tag asks
for if they do not. -/
namespace Stencil

/-- The words that go on with an argument. -/
inductive Keyword where
  | each
  | cond
  | block
  | inline
  | json

namespace Keyword

def word : Keyword → Text
  | .each => Lexeme.eachWord
  | .cond => Lexeme.ifWord
  | .block => "md"
  | .inline => "mdi"
  | .json => "json"

/-- What is asked for by a word with an argument. -/
def lexeme : Keyword → Text → Lexeme
  | .each, v => .eachOpen v
  | .cond, v => .ifOpen v
  | .block, v => .leaf (.markdown false v)
  | .inline, v => .leaf (.markdown true v)
  | .json, v => .leaf (.json v)

/-- A tag with a word and an argument, and with blanks around both. -/
def tag (k : Keyword) (l w a r : Text) : Text := tagOf (l ++ (k.word ++ w ++ a) ++ r)

end Keyword

/-- What may stand around the word of a tag: blanks in front of it, blanks and an argument behind it,
and blanks at the end, with no closing braces before those of the tag. -/
structure Text.Spacing (l w a r : Text) : Prop where
  front : l.all isBlank
  gap : w.all isBlank
  gap_ne_nil : w ≠ []
  trimmed : a.Trimmed
  ne_nil : a ≠ []
  back : r.all isBlank
  notMem : ¬ closeBraces <:+: a
  last : r = [] → a.getLast? ≠ some ↑ '\x7d'

/-- Whether blanks behind a word part an argument from it: they start with a space, or there is no
space in what follows the word. -/
def Text.Parts (blanks argument : Text) : Prop := blanks.head? = some ↑ ' ' ∨ ↑ ' ' ∉ blanks ++ argument

theorem Text.strip_front {s t : Text} (ht : ∀ c ∈ t, isBlank c) (h : Trimmed s) :
    strip (t ++ s) = s := by
  have hstrip := strip_surrounded (u := []) ht nofun h
  rwa [List.append_nil] at hstrip

/-- A source that is one tag. By itself it is scanned to one token; and behind a source whose tags are
closed and that leaves it no brace, it is one part of the whole, whatever follows. -/
structure Text.IsTag (source : Text) (l : Lexeme) : Prop where
  alone : ∀ file, Scan.ofSource file source =
    ⟨[⟨l, source, file, .start⟩], .ok ⟨.finish, [], file, Position.start.advance source⟩⟩
  within : ∀ before after, (∀ rest, .unclosed rest ∉ Piece.divide before) →
    before.getLast? ≠ some ↑ '\x7b' →
    (Piece.divide (before ++ source ++ after)).map Piece.lexeme? =
      (Piece.divide before).map Piece.lexeme? ++ some l :: (Piece.divide after).map Piece.lexeme?

theorem Piece.isTag {content : Text} {l : Lexeme} (hproper : (tag content).Proper)
    (hl : (tag content).lexeme? = some l) : (tagOf content).IsTag l := by
  constructor
  · intro file
    rw [Scan.ofSource, divide_tag hproper, Scan.ofPieces_cons hl]
    rfl
  · intro before after hclosed hlast
    rw [divide_append_tag hclosed hlast hproper, List.map_append, List.map_cons, hl]

namespace Lexeme

variable {word v content : Text} {l : Lexeme}

theorem Worded.isBlank_eq_false (h : Worded word v l) : ∀ c ∈ word, Text.isBlank c = false := by
  have hall : word.all (!Text.isBlank ·) := by cases h <;> rfl
  intro c hc
  simpa using List.all_eq_true.1 hall c hc

/-- No word has a blank in it. -/
theorem ofWord?_of_isBlank {c : CodePoint} (hc : c ∈ word) (hblank : Text.isBlank c) (v : Text) :
    ofWord? word v = none := by
  cases hword : ofWord? word v with
  | none => rfl
  | some l =>
    have hfalse := (worded_of_ofWord? hword).isBlank_eq_false c hc
    rw [hblank] at hfalse
    cases hfalse

/-- A tag whose first word means nothing asks for a value. -/
theorem ofContent_of_ofWord?_eq_none (hsplit : splitWord content = (word, v))
    (hword : ofWord? word v = none) (hfirst : content.head? ≠ some ↑ '>') (helse : content ≠ "else") :
    ofContent content = .leaf (.value content) := by
  unfold ofContent
  split
  · exact absurd rfl hfirst
  · simp only [hsplit, hword, helse, if_false]

theorem Worded.bareMark? (h : Worded word v l) (hv : v ≠ []) : l.bareMark? = none := by
  obtain ⟨c, v, rfl⟩ := List.exists_cons_of_ne_nil hv
  cases h <;> rfl

end Lexeme

theorem Text.Spacing.exists_gap {l w a r : Text} (h : Text.Spacing l w a r) :
    ∃ d gap, w = d :: gap ∧ Text.isBlank d ∧ ∀ c ∈ gap, Text.isBlank c := by
  obtain ⟨d, gap, rfl⟩ := List.exists_cons_of_ne_nil h.gap_ne_nil
  have hgap := List.all_eq_true.1 h.gap
  exact ⟨d, gap, rfl, hgap d List.mem_cons_self, fun c hc => hgap c (List.mem_cons_of_mem d hc)⟩

namespace Keyword

variable {k : Keyword} {l w a r : Text} {lexeme : Lexeme}

theorem worded (k : Keyword) (ha : a ≠ []) : Lexeme.Worded k.word a (k.lexeme a) := by
  cases k with
  | each => exact .eachOpen a
  | cond => exact .ifOpen a
  | block => exact .block ha
  | inline => exact .inline ha
  | json => exact .json ha

theorem isBlank_word (k : Keyword) : ∀ c ∈ k.word, Text.isBlank c = false :=
  (k.worded (List.cons_ne_nil ↑ 'a' [])).isBlank_eq_false

theorem notMem_word {c : CodePoint} (hc : Text.isBlank c) (k : Keyword) : c ∉ k.word := by
  intro hmem
  rw [k.isBlank_word c hmem] at hc
  cases hc

theorem head?_ne (k : Keyword) (s : Text) : (k.word ++ s).head? ≠ some ↑ '>' := by
  cases k <;> nofun

/-- Blanks that part a word from its argument are ignored. -/
theorem ofContent_of_parts (k : Keyword) (h : Text.Spacing l w a r) (hparts : w.Parts a) :
    Lexeme.ofContent (k.word ++ w ++ a) = k.lexeme a := by
  obtain ⟨d, gap, rfl, hd, hgap⟩ := h.exists_gap
  rw [List.append_assoc]
  refine (k.worded h.ne_nil).ofContent_of_splitWord ?_ (k.head?_ne _)
  rcases hparts with hspace | hspace
  · obtain rfl : d = ' ' := Option.some.inj hspace
    rw [List.cons_append, Lexeme.splitWord_space (notMem_word rfl k),
      Text.strip_front hgap h.trimmed]
  · have hspace : ↑ ' ' ∉ k.word ++ (d :: gap ++ a) :=
      fun hmem => (List.mem_append.1 hmem).elim (notMem_word rfl k) hspace
    have hhead : ∀ c ∈ (d :: gap ++ a).head?, Text.isBlank c := by
      rintro c ⟨⟩
      exact hd
    rw [Lexeme.splitWord_blank k.isBlank_word hhead hspace,
      Text.strip_front (List.all_eq_true.1 h.gap) h.trimmed]

/-- With blanks that do not, the first word of the tag goes on to its first space, and means nothing,
so that the tag asks for a value. -/
theorem ofContent_of_not_parts (k : Keyword) (h : Text.Spacing l w a r) (hparts : ¬ w.Parts a) :
    Lexeme.ofContent (k.word ++ w ++ a) = .leaf (.value (k.word ++ w ++ a)) := by
  obtain ⟨hfirst, hspace⟩ := not_or.1 hparts
  obtain ⟨u, rest, hrest, hu⟩ := List.eq_append_cons_of_mem (Classical.not_not.1 hspace)
  obtain ⟨d, gap, rfl, hd, -⟩ := h.exists_gap
  cases u with
  | nil =>
    obtain ⟨rfl, -⟩ := List.cons.inj hrest
    exact absurd rfl hfirst
  | cons e u =>
    -- the word takes the first blank in, and no word has one
    obtain ⟨rfl, -⟩ := List.cons.inj hrest
    have hspace : ↑ ' ' ∉ k.word ++ d :: u :=
      fun hmem => (List.mem_append.1 hmem).elim (notMem_word rfl k) hu
    have hmem : d ∈ k.word ++ d :: u := List.mem_append_right _ List.mem_cons_self
    have hsplit := Lexeme.splitWord_space hspace rest
    have hword := Lexeme.ofWord?_of_isBlank hmem hd (Text.strip rest)
    rw [List.append_assoc, hrest, ← List.append_assoc]
    refine Lexeme.ofContent_of_ofWord?_eq_none hsplit hword ?_ ?_
    · rw [List.append_assoc]
      exact k.head?_ne _
    · rw [List.append_assoc]
      cases k <;> nofun

theorem trimmed_content (k : Keyword) (w : Text) (ha : a.Trimmed) (hane : a ≠ []) :
    Text.Trimmed (k.word ++ w ++ a) := by
  obtain ⟨c, rest, hword, hc⟩ : ∃ c rest, k.word = c :: rest ∧ Text.isBlank c = false := by
    cases k <;> exact ⟨_, _, rfl, rfl⟩
  rw [hword]
  exact ha.append hane hc (rest ++ w)

theorem proper_tag (k : Keyword) (h : Text.Spacing l w a r) :
    (Piece.tag (l ++ (k.word ++ w ++ a) ++ r)).Proper := by
  have hbrace : ∀ s : Text, s.all Text.isBlank → ↑ '\x7d' ∉ s :=
    fun s hs hmem => absurd (List.all_eq_true.1 hs _ hmem) (by decide)
  have hword : ↑ '\x7d' ∉ l ++ k.word ++ w := by
    have hk : ↑ '\x7d' ∉ k.word := by cases k <;> decide
    simp only [List.mem_append, not_or]
    exact ⟨⟨hbrace l h.front, hk⟩, hbrace w h.gap⟩
  have hback : ¬ [↑ '\x7d', ↑ '\x7d'] <:+: r ++ (['\x7d'] : Text) := by
    have hempty := Lexeme.proper_front (v := []) (hbrace r h.back) (by decide)
    rw [List.append_nil] at hempty
    exact Piece.proper_tag_iff.1 hempty
  have hargument : ¬ closeBraces <:+: a ++ (r ++ (['\x7d'] : Text)) := by
    refine Text.not_pair_append h.notMem hback ?_
    rintro ⟨hlast, hhead⟩
    cases r with
    | nil => exact h.last rfl hlast
    | cons d r =>
      obtain rfl : d = '\x7d' := Option.some.inj hhead
      exact hbrace _ h.back List.mem_cons_self
  rw [← List.append_assoc] at hargument
  have hproper := Lexeme.proper_front hword hargument
  simpa only [List.append_assoc] using hproper

theorem isTag (k : Keyword) (h : Text.Spacing l w a r)
    (hlexeme : Lexeme.ofContent (k.word ++ w ++ a) = lexeme) (hbare : lexeme.bareMark? = none) :
    (k.tag l w a r).IsTag lexeme := by
  have hstrip : Text.strip (l ++ (k.word ++ w ++ a) ++ r) = k.word ++ w ++ a :=
    Text.strip_surrounded (List.all_eq_true.1 h.front) (List.all_eq_true.1 h.back)
      (k.trimmed_content w h.trimmed h.ne_nil)
  refine Piece.isTag (k.proper_tag h) ?_
  rw [Piece.lexeme?, hstrip, hlexeme, hbare]
  rfl

/-- The word and the argument of a tag are found across the blanks between them exactly if these start
with a space, or if neither they nor the argument has a space in it. Otherwise the tag asks for a value
whose path is the word, the blanks and the argument. -/
theorem isTag_spaced (k : Keyword) (l w a r : Text) (h : Text.Spacing l w a r) :
    (w.Parts a → (k.tag l w a r).IsTag (k.lexeme a)) ∧
    (¬ w.Parts a → (k.tag l w a r).IsTag (.leaf (.value (k.word ++ w ++ a)))) ∧
    (k.tag [] " " a " ").IsTag (k.lexeme a) := by
  have hbare : (k.lexeme a).bareMark? = none := (k.worded h.ne_nil).bareMark? h.ne_nil
  refine ⟨?_, ?_, ?_⟩
  · intro hparts
    exact k.isTag h (k.ofContent_of_parts h hparts) hbare
  · intro hparts
    exact k.isTag h (k.ofContent_of_not_parts h hparts) rfl
  · have hcanonical : Text.Spacing [] " " a " " :=
      ⟨rfl, rfl, by decide, h.trimmed, h.ne_nil, rfl, h.notMem, nofun⟩
    exact k.isTag hcanonical (k.ofContent_of_parts hcanonical (.inl rfl)) hbare

/-- A tab behind a space is ignored, but with a space behind a tab the whole is a path. -/
theorem isTag_spaced_tabs :
    Text.Spacing "\n" " \t" "x y" [] ∧ Text.Spacing [] "\t" "x y" " " ∧
      (tagOf "\njson \tx y").IsTag (.leaf (.json "x y")) ∧
      (tagOf "json\tx y ").IsTag (.leaf (.value "json\tx y")) := by
  have htrimmed : Text.Trimmed "x y" := ⟨by rintro c ⟨⟩; rfl, by rintro c ⟨⟩; rfl⟩
  have hspaced : Text.Spacing "\n" " \t" "x y" [] :=
    ⟨rfl, rfl, by decide, htrimmed, by decide, rfl, by decide, fun _ => by decide⟩
  have htabbed : Text.Spacing [] "\t" "x y" " " :=
    ⟨rfl, rfl, by decide, htrimmed, by decide, rfl, by decide, nofun⟩
  obtain ⟨hignored, -, -⟩ := isTag_spaced .json "\n" " \t" "x y" [] hspaced
  obtain ⟨-, hpath, -⟩ := isTag_spaced .json [] "\t" "x y" " " htabbed
  exact ⟨hspaced, htabbed, hignored (.inl rfl), hpath (by unfold Text.Parts; decide)⟩

/-- Blanks between a word and its argument are not always ignored: a loop over a path on the next line,
behind spaces, is read as a value. -/
theorem not_isTag_indented :
    ¬ ∀ (k : Keyword) (l w a r : Text), Text.Spacing l w a r →
      (Scan.ofSource none (k.tag l w a r)).tokens.map Token.lexeme = [k.lexeme a] := by
  intro hignored
  have htrimmed : Text.Trimmed "items" := ⟨by rintro c ⟨⟩; rfl, by rintro c ⟨⟩; rfl⟩
  have hspacing : Text.Spacing [] "\n  " "items" [] :=
    ⟨rfl, rfl, by decide, htrimmed, by decide, rfl, by decide, fun _ => by decide⟩
  have hvalue : (Scan.ofSource none (tag .each [] "\n  " "items" [])).tokens.map Token.lexeme =
      [.leaf (.value "#each\n  items")] := by decide +kernel
  have hloop := hignored .each [] "\n  " "items" [] hspacing
  rw [hvalue] at hloop
  cases hloop

end Keyword
end Stencil
