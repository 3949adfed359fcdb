import Stencil.Proofs.Template.BlockFault
import Stencil.Proofs.Template.Tokens
import Stencil.Proofs.Text.Numeral
/-! Where faults are said to be: each at a tag that the scan of the source comes to, and nowhere in the
text between the tags or at the end. -/
namespace Stencil

namespace Piece

/-- Whether a part of a source is a tag, closed or not. -/
def opensTag : Piece → Bool
  | .text _ => false
  | .tag _ | .unclosed _ => true

/-- The offsets at which a scan of the source from left to right comes to the opening braces of a
tag: the parts in front of the tag fill the source up to there. -/
def TagAt (source : Text) (offset : Nat) : Prop :=
  openBraces <+: source.drop offset ∧
    ∃ before piece after, divide source = before ++ piece :: after ∧ piece.opensTag = true ∧
      (before.flatMap raw).length = offset

variable {source : Text} {before after : List Piece} {piece : Piece} {l : Lexeme}

theorem exists_raw_of_opensTag (h : piece.opensTag = true) :
    ∃ rest, piece.raw = openBraces ++ rest := by
  cases piece with
  | text content => cases h
  | tag content => exact ⟨content ++ closeBraces, List.append_assoc _ _ _⟩
  | unclosed rest => exact ⟨rest, rfl⟩

theorem tagAt_of_divide (h : divide source = before ++ piece :: after)
    (hpiece : piece.opensTag = true) : TagAt source (before.flatMap raw).length := by
  refine ⟨?_, before, piece, after, h, hpiece, rfl⟩
  obtain ⟨rest, hrest⟩ := exists_raw_of_opensTag hpiece
  have hsource : source = before.flatMap raw ++ (piece.raw ++ after.flatMap raw) := by
    rw [← flatMap_raw_divide source, h, List.flatMap_append, List.flatMap_cons]
  rw [hsource, List.drop_left, hrest, List.append_assoc]
  exact List.prefix_append _ _

/-- What is not read as text opens a tag. -/
theorem opensTag_of_lexeme? (h : ∀ content, piece.lexeme? ≠ some (.leaf (.text content))) :
    piece.opensTag = true := by
  cases piece with
  | text content => exact absurd rfl (h content)
  | tag | unclosed => rfl

end Piece

namespace Scan

variable {file : Option Text} {source : Text} {p : Position} {ps : List Piece} {ts : List Token}
  {t : Token}

/-- A token is one of the parts, and stands where the parts in front of it end. -/
theorem exists_piece_of_reads (h : Reads file p ps ts) (ht : t ∈ ts) :
    ∃ before piece after l, ps = before ++ piece :: after ∧ piece.lexeme? = some l ∧
      t = ⟨l, piece.raw, file, p.advance (before.flatMap Piece.raw)⟩ := by
  induction h with
  | nil p => cases ht
  | @cons p piece l ps ts h _ ih =>
    rcases List.mem_cons.1 ht with rfl | ht
    · exact ⟨[], piece, ps, l, rfl, h, rfl⟩
    · obtain ⟨before, other, after, l, rfl, hl, rfl⟩ := ih ht
      refine ⟨piece :: before, other, after, l, rfl, hl, ?_⟩
      rw [List.flatMap_cons, Position.advance_append]

/-- The tokens of a source are those of the first parts of its division. -/
theorem exists_reads_ofSource (file : Option Text) (source : Text) :
    ∃ done rest, Piece.divide source = done ++ rest ∧
      Reads file .start done (ofSource file source).tokens := by
  rcases ofPieces_cases file .start (Piece.divide source) with
    ⟨ts, hts⟩ | ⟨done, bad, rest, ts, cause, hdivide, -, hts, hscan⟩
  · refine ⟨Piece.divide source, [], (List.append_nil _).symm, ?_⟩
    rw [ofSource, ofPieces_of_reads hts]
    exact hts
  · refine ⟨done, bad :: rest, hdivide, ?_⟩
    rw [ofSource, hscan]
    exact hts

/-- So a token of a source is a part of its division. -/
theorem exists_piece_of_mem (ht : t ∈ (ofSource file source).tokens) :
    ∃ before piece after l, Piece.divide source = before ++ piece :: after ∧
      piece.lexeme? = some l ∧
      t = ⟨l, piece.raw, file, .ofOffset source (before.flatMap Piece.raw).length⟩ := by
  obtain ⟨done, rest, hdivide, hts⟩ := exists_reads_ofSource file source
  obtain ⟨before, piece, after, l, rfl, hl, rfl⟩ := exists_piece_of_reads hts ht
  refine ⟨before, piece, after ++ rest, l, by rw [hdivide, List.append_assoc]; rfl, hl, ?_⟩
  have hsource : source =
      before.flatMap Piece.raw ++ (piece :: after ++ rest).flatMap Piece.raw := by
    rw [← List.flatMap_append, ← List.append_assoc, ← hdivide, Piece.flatMap_raw_divide]
  conv => rhs; rw [hsource, Position.ofOffset_append]

end Scan

namespace SyntaxError

/-- Colons behind a number are dropped from the end of a place, and nothing else is. -/
theorem dropColons_ofNat (s : Text) (n : Nat) :
    ((s ++ Text.ofNat n ++ ([':'] : Text)).reverse.dropWhile (· = ↑ ':')).reverse =
      s ++ Text.ofNat n := by
  obtain ⟨front, d, hd⟩ : ∃ front d, Text.ofNat n = front ++ [d] := by
    rcases List.eq_nil_or_concat (Text.ofNat n) with hnil | ⟨front, d, hd⟩
    · exact absurd hnil (Text.ofNat_ne_nil n)
    · exact ⟨front, d, by rw [hd, List.concat_eq_append]⟩
  have hdigit : Text.isAsciiDigit d := by
    have hmem : d ∈ Text.ofNat n := by simp [hd]
    exact Text.isAsciiDigit_of_mem_ofNat hmem
  have hcolon : d ≠ ':' := (Text.ne_digit rfl hdigit).symm
  simp [hd, hcolon]

/-- The place in front of a message is written like a location. -/
theorem text_eq (e : SyntaxError) (stop : Nat) :
    e.text = Location.text ⟨e.file, e.position, stop⟩ ++ " " ++ e.message := by
  obtain ⟨cause, ⟨offset, line, column⟩, file⟩ := e
  have hdrop (s : Text) :
      ((s ++ (Text.ofNat line ++ ([':'] : Text) ++ (Text.ofNat column ++ ([':'] : Text)))).reverse
        |>.dropWhile (· = ↑ ':')).reverse = s ++ (Text.ofNat line ++ ↑ ':' :: Text.ofNat column) := by
    simpa using dropColons_ofNat (s ++ Text.ofNat line ++ ([':'] : Text)) column
  have hplace (s message : Text) :
      (let place := s ++ (Text.ofNat line ++ ([':'] : Text) ++ (Text.ofNat column ++ ([':'] : Text)))
        if place.isEmpty then message
        else (place.reverse.dropWhile (· = ↑ ':')).reverse ++ ([' '] : Text) ++ message) =
      s ++ (Text.ofNat line ++ ↑ ':' :: Text.ofNat column) ++ ([' '] : Text) ++ message := by
    dsimp only
    rw [if_neg (by simp), hdrop]
  unfold text located Location.text
  rcases file with _ | _ | ⟨c, file⟩
  · exact hplace [] _
  · exact hplace [] _
  · refine (hplace (c :: file ++ ([':'] : Text)) _).trans ?_
    simp

/-- A fault that is said to be at a tag of a source: its line and column are those of the tag, and it
is shown with them and the name of the source in front of its message. -/
def AtTagOf (file : Option Text) (source : Text) (e : SyntaxError) : Prop :=
  ∃ offset, Piece.TagAt source offset ∧ e.position = .ofOffset source offset ∧ e.file = file ∧
    e.text = (Location.ofOffset source offset none file).text ++ " " ++ e.message

variable {file : Option Text} {source : Text} {e : SyntaxError} {cause : Cause} {t : Token}
  {ts : List Token}

theorem atTagOf_of_divide {before after : List Piece} {piece : Piece}
    (h : Piece.divide source = before ++ piece :: after) (hpiece : piece.opensTag = true) :
    AtTagOf file source ⟨cause, .ofOffset source (before.flatMap Piece.raw).length, file⟩ :=
  ⟨_, Piece.tagAt_of_divide h hpiece, rfl, rfl, text_eq _ _⟩

/-- A scan stops at a tag. -/
theorem atTagOf_of_scan (h : (Scan.ofSource file source).ending = .error e) :
    e.AtTagOf file source := by
  rcases Scan.ofPieces_cases file .start (Piece.divide source) with
    ⟨ts, hts⟩ | ⟨done, bad, rest, ts, cause, hdivide, hbad, -, hscan⟩
  · rw [Scan.ofSource, Scan.ofPieces_of_reads hts] at h
    cases h
  · rw [Scan.ofSource, hscan] at h
    obtain rfl := Except.error.inj h
    have hsource : source = done.flatMap Piece.raw ++ (bad :: rest).flatMap Piece.raw := by
      rw [← List.flatMap_append, ← hdivide, Piece.flatMap_raw_divide]
    have hat : AtTagOf file source ⟨cause, .ofOffset source _, file⟩ :=
      atTagOf_of_divide hdivide (Piece.opensTag_of_lexeme? fun content => by simp [hbad])
    rwa [hsource, Position.ofOffset_append, ← hsource] at hat

/-- A fault at a token that is no text is at a tag. -/
theorem atTagOf_of_token (ht : t ∈ (Scan.ofSource file source).tokens)
    (hlexeme : t.lexeme.isTag = true) : (t.fault cause).AtTagOf file source := by
  obtain ⟨before, piece, after, l, hdivide, hl, rfl⟩ := Scan.exists_piece_of_mem ht
  refine atTagOf_of_divide hdivide (Piece.opensTag_of_lexeme? ?_)
  rintro content htext
  obtain rfl := Option.some.inj (hl.symm.trans htext)
  cases hlexeme

/-- Open blocks are opened by tags that have been read. -/
theorem opener_of_next {b : OpenTag} {tags : List OpenTag}
    (htags : ∀ b ∈ tags, b.opener ∈ ts ∧ b.opener.lexeme.isTag = true) (ht : t ∈ ts)
    (hb : b ∈ OpenTag.next tags t) : b.opener ∈ ts ∧ b.opener.lexeme.isTag = true := by
  unfold OpenTag.next at hb
  split at hb
  · next path hl =>
    rcases List.mem_cons.1 hb with rfl | hb
    · exact ⟨ht, by rw [hl]; rfl⟩
    · exact htags b hb
  · next path hl =>
    rcases List.mem_cons.1 hb with rfl | hb
    · exact ⟨ht, by rw [hl]; rfl⟩
    · exact htags b hb
  · exact htags b (List.mem_of_mem_tail hb)
  · exact htags b (List.mem_of_mem_tail hb)
  · next c outer _ =>
    rcases List.mem_cons.1 hb with rfl | hb
    · exact htags c List.mem_cons_self
    · exact htags b (List.mem_cons_of_mem c hb)
  · exact htags b hb

theorem opener_of_after {b : OpenTag} (hb : b ∈ OpenTag.after ts) :
    b.opener ∈ ts ∧ b.opener.lexeme.isTag = true := by
  have hall : ∀ us tags, us ⊆ ts → (∀ b ∈ tags, b.opener ∈ ts ∧ b.opener.lexeme.isTag = true) →
      ∀ b ∈ us.foldl OpenTag.next tags, b.opener ∈ ts ∧ b.opener.lexeme.isTag = true := by
    intro us
    induction us with
    | nil => exact fun tags _ htags => htags
    | cons u us ih =>
      intro tags hsub htags
      obtain ⟨hu, hus⟩ := List.cons_subset.1 hsub
      exact ih _ hus fun b hb => opener_of_next htags hu hb
  exact hall ts [] (List.Subset.refl ts) (by simp) b hb

theorem isTag_of_misplaced {tags : List OpenTag} (h : Misplaced tags t cause) :
    t.lexeme.isTag = true := by
  cases h with
  | strayClose kind hl | mismatchedClose kind hl => rw [hl]; cases kind <;> rfl
  | strayElse hl | elseInLoop hl | duplicateElse hl => rw [hl]; rfl

/-- Every fault for which a source is rejected is at a tag of it. -/
theorem atTagOf_of_parse (h : Template.parse file source = .error e) : e.AtTagOf file source := by
  rcases (Template.parse_eq_error_iff file source e).1 h with hscan | ⟨-, hfault⟩
  · exact atTagOf_of_scan hscan
  · cases hfault with
    | @misplaced us vs t cause hts hbefore hat hcause =>
      refine atTagOf_of_token ?_ (isTag_of_misplaced hcause)
      rw [hts]
      exact List.mem_append_right us List.mem_cons_self
    | @unterminated b outer hts hopen =>
      obtain ⟨hopener, htag⟩ : b.opener ∈ _ ∧ _ := opener_of_after (hopen ▸ List.mem_cons_self)
      exact atTagOf_of_token hopener htag

end SyntaxError
end Stencil
