import Stencil.Proofs.Render.Concatenation
import Stencil.Proofs.Template.Respelling
/-! How the tags of a source are spelled shows nowhere but in places: with canonical spellings the
source has the same tree and renders alike. -/
namespace Stencil

/-- The source with the canonical spelling of every tag in it, and with all text kept. -/
def Scan.respelled (s : Scan) : Text := s.tokens.flatMap fun t => t.lexeme.piece.raw

/-- A failure without the place of the inclusion that there was no room for. -/
def RenderFailure.unplaced : RenderFailure → RenderFailure
  | .tooDeep name _ limit => .tooDeep name .unknown limit
  | f => f

/-- What an outcome shows apart from places: its text and the kinds and messages of its warnings, or
what it failed with. -/
def Outcome.shown (o : Outcome) : Except RenderFailure (Text × List (Text × Text)) :=
  match o.result with
  | .ok r => .ok (r.output, r.warnings.map Warning.notice)
  | .error f => .error f.unplaced

namespace Render

variable {settings : Settings} {a b : Trace}

theorem hidesPlaces_unplaced (settings : Settings) :
    HidesPlaces settings RenderFailure.unplaced := by
  intro name location location'
  rcases noRoom_cases settings with ⟨limit, h⟩ | ⟨fault, h⟩
  · rw [h, h]
    rfl
  · rw [h, h]

theorem shown_congr (h : Trace.Alike Warning.notice RenderFailure.unplaced a b) :
    (Outcome.ofTrace settings a).shown = (Outcome.ofTrace settings b).shown := by
  have hfailure := h.failure
  cases ha : a.failure with
  | none =>
    have hb : b.failure = none := h.failure_eq_none_iff.1 ha
    simp only [Outcome.shown, Outcome.ofTrace, ha, hb, h.output, h.warnings]
  | some f =>
    rw [ha] at hfailure
    obtain ⟨g, hb, hg⟩ := Option.map_eq_some_iff.1 hfailure.symm
    simp only [Outcome.shown, Outcome.ofTrace, ha, hb, hg]

end Render

namespace Scan

variable {file : Option Text} {source : Text} {ls : List Lexeme}

/-- Where no part is at fault, the tokens are the parts. -/
theorem map_piece_ofSource (h : (Piece.divide source).map Piece.lexeme? = ls.map some) :
    (ofSource file source).tokens.map Token.piece = Piece.divide source := by
  rcases ofPieces_cases file .start (Piece.divide source) with
    ⟨ts, hts⟩ | ⟨done, bad, rest, ts, cause, hdivide, hbad, -, -⟩
  · rw [ofSource, ofPieces_of_reads hts, map_piece_of_reads hts]
  · have hmem : bad ∈ Piece.divide source := by
      rw [hdivide]
      exact List.mem_append_right done List.mem_cons_self
    obtain ⟨l, hl⟩ := Piece.exists_lexeme_of_mem h hmem
    rw [hl] at hbad
    cases hbad

end Scan

namespace Template

variable {file : Option Text} {source : Text} {t : Template}

theorem lexemes_eq_tokens (h : parse file source = .ok t) :
    Node.lexemes t.nodes = (Scan.ofSource file source).tokens.map Token.lexeme := by
  obtain ⟨last, hend⟩ := exists_last_of_parse h
  exact Node.lexemes_of_spellings ((parse_eq_ok_iff hend).1 h).2.2

theorem file_of_parse (h : parse file source = .ok t) : t.file = file := by
  obtain ⟨last, hend⟩ := exists_last_of_parse h
  exact ((parse_eq_ok_iff hend).1 h).1

/-- A source that parses, with all its tags spelled canonically, parses to the same tree apart from
places: its tokens are those spellings and ask for the same, one by one. So it renders alike, in every
context and with every setting and partial. -/
theorem parse_respelled (file : Option Text) (source : Text) (t : Template)
    (h : parse file source = .ok t) :
    ∃ t' respelled, respelled = (Scan.ofSource file source).respelled ∧
      parse file respelled = .ok t' ∧ t'.file = t.file ∧
      Node.unplaced t'.nodes = Node.unplaced t.nodes ∧
      (Scan.ofSource file respelled).tokens.map Token.piece =
        (Scan.ofSource file source).tokens.map (fun token => token.lexeme.piece) ∧
      (Scan.ofSource file respelled).tokens.map Token.lexeme =
        (Scan.ofSource file source).tokens.map Token.lexeme ∧
      ∀ settings partials context,
        (renderSource settings partials file respelled context).shown =
          (renderSource settings partials file source context).shown := by
  have hls := lexemes_of_parse h
  have hproper : ∀ p ∈ Piece.divide source, p.Proper := fun p hp =>
    Piece.proper_of_mem_divide hp fun rest hrest => Piece.unclosed_not_mem hls rest (hrest ▸ hp)
  obtain ⟨hdivide, hsame⟩ := Piece.divide_canonical hproper (Piece.meets_divide source) hls
  have hrespelled : ((Node.lexemes t.nodes).map Lexeme.piece).flatMap Piece.raw =
      (Scan.ofSource file source).respelled := by
    rw [lexemes_eq_tokens h, Scan.respelled, List.map_map, List.flatMap_map]
    rfl
  rw [hrespelled] at hdivide
  rw [← hdivide] at hsame
  obtain ⟨t', ht', hlexemes⟩ := exists_parse_of_lexemes file hsame
  refine ⟨t', _, rfl, ht', ?_, Node.unplaced_congr hlexemes, ?_, ?_, ?_⟩
  · rw [file_of_parse h, file_of_parse ht']
  · rw [Scan.map_piece_ofSource hsame, hdivide, lexemes_eq_tokens h, List.map_map]
    rfl
  · rw [← lexemes_eq_tokens ht', hlexemes, lexemes_eq_tokens h]
  · intro settings partials context
    simp only [renderSource, ht', h, Template.render, Render.run_eq]
    exact Render.shown_congr (Render.nodes_alike_of_lexemes (Render.hidesPlaces_unplaced settings)
      hlexemes _ _)

/-- Tags with braces and tabs in them, one of which only looks like a tag with a word. -/
def oddSource : Text :=
  tagOf "#if\tx" ++ "a\x7d" ++ tagOf "\x7bp\x7d " ++ tagOf "md\tp q" ++ tagOf ">n" ++
    tagOf " /if  z"

/-- Spelled canonically it is the same template. -/
theorem parse_respelled_oddSource :
    ∃ t t' respelled, parse none oddSource = .ok t ∧
      respelled = tagOf "#if x " ++ "a\x7d" ++ tagOf " \x7bp\x7d " ++ tagOf " md\tp q " ++
        tagOf "> n " ++ tagOf "/if" ∧
      parse none respelled = .ok t' ∧ Node.unplaced t'.nodes = Node.unplaced t.nodes ∧
      ∀ settings partials context,
        (renderSource settings partials none respelled context).shown =
          (renderSource settings partials none oddSource context).shown := by
  obtain ⟨t, ht⟩ : ∃ t, parse none oddSource = .ok t := exists_ok_of_isOk (by decide +kernel)
  obtain ⟨t', respelled, hrespelled, ht', -, hnodes, -, -, hshown⟩ := parse_respelled none _ t ht
  exact ⟨t, t', respelled, ht, hrespelled.trans (by decide +kernel), ht', hnodes, hshown⟩

end Template
end Stencil
