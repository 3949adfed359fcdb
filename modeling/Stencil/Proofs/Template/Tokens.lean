import Stencil.Proofs.Template.Decomposition
/-! The tokens of a scan: where each stands in the source and which part of it each is. -/
namespace Stencil

namespace Token

/-- The part of the source that a token is: text, or a tag with what stands between its braces. -/
def piece (t : Token) : Piece :=
  match t.lexeme with
  | .leaf (.text _) => .text t.raw
  | _ => .tag ((t.raw.drop 2).take (t.raw.length - 4))

/-- Tokens that fill the beginning of a source: the first one starts there and each other one where
the one before it stops, they are written as the source has it, and none is that of the end. -/
structure Fill (source : Text) (ts : List Token) : Prop where
  first : ∀ t ∈ ts.head?, t.start.offset = 0
  next : ts.IsChain fun t u => u.start.offset = t.stop
  raw : ∀ t ∈ ts, t.raw ≠ [] ∧ source.extract t.start.offset t.stop = t.raw
  place : ∀ t ∈ ts, t.start = Position.ofOffset source t.start.offset
  piece : ∀ t ∈ ts, t.piece.raw = t.raw
  inside : ∀ t ∈ ts, t.lexeme ≠ .finish

end Token

namespace Piece

variable {piece : Piece} {l : Lexeme} {file : Option Text} {p : Position}

theorem piece_of_lexeme? (h : piece.lexeme? = some l) :
    (⟨l, piece.raw, file, p⟩ : Token).piece = piece := by
  cases piece with
  | unclosed rest => cases h
  | text content =>
    obtain rfl := Option.some.inj h
    rfl
  | tag content =>
    simp only [lexeme?] at h
    split at h
    · cases h
    · obtain rfl := Option.some.inj h
      unfold Token.piece
      split
      · next hl =>
        have htag := Lexeme.isTag_ofContent content.strip
        rw [show Lexeme.ofContent content.strip = _ from hl] at htag
        cases htag
      · simp [raw, tagOf, openBraces, closeBraces]

theorem raw_ne_nil_of_proper (h : piece.Proper) : piece.raw ≠ [] := by
  cases piece with
  | text content => exact h.1
  | tag content => simp [raw, tagOf, openBraces]
  | unclosed rest => exact h.elim

/-- A part that no token is made of begins with the opening braces of a tag. -/
theorem exists_raw_of_lexeme? (h : piece.lexeme? = none) :
    ∃ rest, piece.raw = openBraces ++ rest := by
  cases piece with
  | text content => cases h
  | tag content => exact ⟨content ++ closeBraces, List.append_assoc _ _ _⟩
  | unclosed rest => exact ⟨rest, rfl⟩

end Piece

namespace Scan

variable {file : Option Text} {p : Position} {ps : List Piece} {ts : List Token} {t : Token}

/-- The tokens of some parts, the first of which stands at `p`: each part is a token, which asks for
what the part asks for and stands where the parts before it end. -/
inductive Reads (file : Option Text) : Position → List Piece → List Token → Prop
  | nil (p : Position) : Reads file p [] []
  | cons {p : Position} {piece : Piece} {l : Lexeme} {ps : List Piece} {ts : List Token}
    (h : piece.lexeme? = some l) (hr : Reads file (p.advance piece.raw) ps ts) :
    Reads file p (piece :: ps) (⟨l, piece.raw, file, p⟩ :: ts)

theorem ofPieces_of_reads (h : Reads file p ps ts) :
    ofPieces file p ps = ⟨ts, .ok ⟨.finish, [], file, p.advance (ps.flatMap Piece.raw)⟩⟩ := by
  induction h with
  | nil p => rfl
  | cons h _ ih =>
    rw [ofPieces_cons h, ih, List.flatMap_cons, Position.advance_append]
    rfl

/-- A scan reads all parts, or those in front of the first one that is at fault. -/
theorem ofPieces_cases (file : Option Text) (p : Position) (ps : List Piece) :
    (∃ ts, Reads file p ps ts) ∨
      ∃ done bad rest ts cause, ps = done ++ bad :: rest ∧ bad.lexeme? = none ∧
        Reads file p done ts ∧
        ofPieces file p ps = ⟨ts, .error ⟨cause, p.advance (done.flatMap Piece.raw), file⟩⟩ := by
  induction ps generalizing p with
  | nil => exact .inl ⟨[], .nil p⟩
  | cons piece ps ih =>
    cases h : piece.lexeme? with
    | none =>
      obtain ⟨cause, hcause⟩ : ∃ cause, ofPieces file p (piece :: ps) =
        ⟨[], .error ⟨cause, p, file⟩⟩ := ofPieces_cons_none h
      exact .inr ⟨[], piece, ps, [], cause, rfl, h, .nil p, hcause⟩
    | some l =>
      rcases ih (p.advance piece.raw) with
        ⟨ts, hts⟩ | ⟨done, bad, rest, ts, cause, rfl, hbad, hts, hscan⟩
      · exact .inl ⟨_, .cons h hts⟩
      · refine .inr ⟨piece :: done, bad, rest, _, cause, rfl, hbad, .cons h hts, ?_⟩
        rw [ofPieces_cons h, hscan, List.flatMap_cons, Position.advance_append]
        rfl

theorem map_piece_of_reads (h : Reads file p ps ts) : ts.map Token.piece = ps := by
  induction h with
  | nil p => rfl
  | cons h _ ih => rw [List.map_cons, ih, Piece.piece_of_lexeme? h]

theorem lexeme?_ne_none_of_reads {piece : Piece} (h : Reads file p ps ts) (hp : piece ∈ ps) :
    piece.lexeme? ≠ none := by
  induction h with
  | nil p => cases hp
  | cons h _ ih =>
    rcases List.mem_cons.1 hp with rfl | hp
    · simp [h]
    · exact ih hp

theorem piece_raw_of_reads (h : Reads file p ps ts) (ht : t ∈ ts) : t.piece.raw = t.raw := by
  induction h with
  | nil p => cases ht
  | cons h _ ih =>
    rcases List.mem_cons.1 ht with rfl | ht
    · rw [Piece.piece_of_lexeme? h]
    · exact ih ht

theorem lexeme_ne_finish_of_reads (h : Reads file p ps ts) (ht : t ∈ ts) : t.lexeme ≠ .finish := by
  induction h with
  | nil p => cases ht
  | @cons p piece l ps ts h _ ih =>
    rcases List.mem_cons.1 ht with rfl | ht
    · rintro rfl
      exact piece.lexeme?_ne_finish h
    · exact ih ht

theorem start_of_reads (h : Reads file p ps ts) (ht : t ∈ ts.head?) : t.start = p := by
  cases h with
  | nil p => cases ht
  | cons h _ =>
    obtain rfl := Option.some.inj ht
    rfl

/-- Each token starts where the one before it stops. -/
theorem next_of_reads (h : Reads file p ps ts) :
    ts.IsChain fun t u => u.start.offset = t.stop := by
  induction h with
  | nil p => exact List.isChain_nil
  | cons h hr ih =>
    refine ih.cons ?_
    intro u hu
    rw [start_of_reads hr hu, Position.offset_advance]
    rfl

/-- Where a token stands: after some of the text of the parts, with its own text coming next. -/
theorem exists_split_of_reads (h : Reads file p ps ts) (ht : t ∈ ts) :
    ∃ before after, ps.flatMap Piece.raw = before ++ t.raw ++ after ∧
      t.start = p.advance before := by
  induction h with
  | nil p => cases ht
  | @cons p piece l ps ts h _ ih =>
    rcases List.mem_cons.1 ht with rfl | ht
    · exact ⟨[], ps.flatMap Piece.raw, rfl, rfl⟩
    · obtain ⟨before, after, hraw, hstart⟩ := ih ht
      refine ⟨piece.raw ++ before, after, ?_, ?_⟩
      · simp [hraw]
      · rw [hstart, Position.advance_append]

/-- The tokens of some parts of a source fill its beginning. -/
theorem fill_of_reads (h : Reads file .start ps ts) (hps : ∀ p ∈ ps, p.Proper) (rest : Text) :
    Token.Fill (ps.flatMap Piece.raw ++ rest) ts := by
  have hsplit : ∀ t ∈ ts, ∃ before after,
      ps.flatMap Piece.raw ++ rest = before ++ (t.raw ++ after) ∧
      t.start = .ofOffset (ps.flatMap Piece.raw ++ rest) before.length ∧
      t.start.offset = before.length := by
    intro t ht
    obtain ⟨before, after, hraw, hstart⟩ := exists_split_of_reads h ht
    have heq : ps.flatMap Piece.raw ++ rest = before ++ (t.raw ++ (after ++ rest)) := by
      simp [hraw]
    refine ⟨before, after ++ rest, heq, ?_, ?_⟩
    · rw [hstart, heq, Position.ofOffset_append]
    · rw [hstart, Position.offset_advance]
      exact Nat.zero_add _
  refine ⟨?_, next_of_reads h, ?_, ?_, fun t ht => piece_raw_of_reads h ht,
    fun t ht => lexeme_ne_finish_of_reads h ht⟩
  · intro t ht
    rw [start_of_reads h ht]
    rfl
  · intro t ht
    obtain ⟨before, after, heq, -, hoffset⟩ := hsplit t ht
    refine ⟨?_, ?_⟩
    · rw [← piece_raw_of_reads h ht]
      apply Piece.raw_ne_nil_of_proper
      apply hps
      rw [← map_piece_of_reads h]
      exact List.mem_map_of_mem ht
    · simp [List.extract, heq, Token.stop, hoffset]
  · intro t ht
    obtain ⟨before, after, -, hstart, hoffset⟩ := hsplit t ht
    rw [hoffset]
    exact hstart

/-- The parts in front of a fault are a decomposition of what they spell. -/
theorem decomposition_of_reads {rest : List Piece} {source : Text} (h : Reads file p ps ts)
    (hdivide : Piece.divide source = ps ++ rest) :
    Piece.Decomposition (ps.flatMap Piece.raw) ps := by
  refine ⟨rfl, ?_, ?_⟩
  · intro q hq
    have hmem : q ∈ Piece.divide source := by
      rw [hdivide]
      exact List.mem_append_left rest hq
    apply Piece.proper_of_mem_divide hmem
    rintro r rfl
    exact lexeme?_ne_none_of_reads h hq rfl
  · have hmeets := Piece.meets_divide source
    rw [hdivide] at hmeets
    exact hmeets.left_of_append

/-- A scan always ends, and its tokens fill the source up to its end or to the tag that is at fault.
They are a decomposition of what they fill into text and tags. If the scan reaches the end, it is
the only decomposition of the source; if it ends at a fault, the source in front of that tag has the
same tokens by itself. -/
theorem ofSource_decomposes (file : Option Text) (source : Text) :
    ∃ covered rest, source = covered ++ rest ∧
      Token.Fill source (ofSource file source).tokens ∧
      Piece.Decomposition covered ((ofSource file source).tokens.map Token.piece) ∧
      match (ofSource file source).ending with
      | .ok last =>
        rest = [] ∧ last = ⟨.finish, [], file, .ofOffset source source.length⟩ ∧
          ∀ ps, Piece.Decomposition source ps →
            ps = (ofSource file source).tokens.map Token.piece
      | .error e =>
        openBraces <+: rest ∧ e.position = .ofOffset source covered.length ∧ e.file = file ∧
          ofSource file covered =
            ⟨(ofSource file source).tokens,
              .ok ⟨.finish, [], file, .ofOffset covered covered.length⟩⟩ := by
  have hsource := Piece.flatMap_raw_divide source
  rcases ofPieces_cases file .start (Piece.divide source) with
    ⟨ts, hts⟩ | ⟨done, bad, rest, ts, cause, hdivide, hbad, hts, hscan⟩
  · have hdec : Piece.Decomposition _ (Piece.divide source) :=
      decomposition_of_reads hts (List.append_nil _).symm
    have hfill := fill_of_reads hts hdec.proper []
    rw [hsource] at hdec hfill
    rw [List.append_nil] at hfill
    refine ⟨source, [], (List.append_nil source).symm, ?_⟩
    rw [ofSource, ofPieces_of_reads hts, map_piece_of_reads hts, hsource]
    refine ⟨hfill, hdec, rfl, ?_, ?_⟩
    · have hlast := Position.ofOffset_append source []
      rw [List.append_nil] at hlast
      rw [hlast]
    · intro ps hps
      exact (Piece.divide_of_decomposition hps).symm
  · have hdec := decomposition_of_reads hts hdivide
    obtain ⟨after, hafter⟩ := Piece.exists_raw_of_lexeme? hbad
    rw [hdivide, List.flatMap_append, List.flatMap_cons, hafter] at hsource
    have hfill := fill_of_reads hts hdec.proper (openBraces ++ after ++ rest.flatMap Piece.raw)
    rw [hsource] at hfill
    refine ⟨done.flatMap Piece.raw, openBraces ++ after ++ rest.flatMap Piece.raw, hsource.symm, ?_⟩
    rw [ofSource, hscan, map_piece_of_reads hts]
    refine ⟨hfill, hdec, ?_, ?_, rfl, ?_⟩
    · exact ⟨after ++ rest.flatMap Piece.raw, by simp⟩
    · rw [← hsource, Position.ofOffset_append]
    · have hlast := Position.ofOffset_append (done.flatMap Piece.raw) []
      rw [List.append_nil] at hlast
      rw [ofSource, Piece.divide_of_decomposition hdec, ofPieces_of_reads hts, hlast]

-- The first two of three braces open a tag, and the first two close it.
example : (ofSource none "a\x7b\x7b\x7bb\x7d\x7d\x7d").tokens.map Token.piece =
    [.text "a", .tag "\x7bb", .text "\x7d"] := by decide +kernel

end Scan
end Stencil
