import Stencil.Template.Token
/-! What a scan makes of each piece by itself, wherever the piece stands. -/
namespace Stencil

theorem exists_ok_of_isOk {ε α : Type} {x : Except ε α} (h : x.isOk) : ∃ a, x = .ok a := by
  cases x with
  | error e => cases h
  | ok a => exact ⟨a, rfl⟩

theorem ok_of_toOption {ε α : Type} {x : Except ε α} {a : α} (h : x.toOption = some a) :
    x = .ok a := by
  cases x with
  | error e => cases h
  | ok b => exact congrArg Except.ok (Option.some.inj h)

/-- The lexeme of a piece, unless the piece is at fault. -/
def Piece.lexeme? : Piece → Option Lexeme
  | .text content => some (.leaf (.text content))
  | .unclosed _ => none
  | .tag content =>
    let lexeme := Lexeme.ofContent content.strip
    if lexeme.bareMark?.isSome then none else some lexeme

/-- Whether a lexeme is asked for by a tag: neither text nor the end of a template is. -/
def Lexeme.isTag : Lexeme → Bool
  | .leaf (.text _) | .finish => false
  | _ => true

theorem Lexeme.isTag_of_ofWord? {word argument : Text} {l : Lexeme}
    (h : ofWord? word argument = some l) : l.isTag = true := by
  have hall : ∀ l ∈ ofWord? word argument, l.isTag = true := by
    unfold ofWord?
    repeat' split
    all_goals simp [isTag]
  exact hall l h

theorem Lexeme.isTag_ofContent (content : Text) : (ofContent content).isTag = true := by
  unfold ofContent
  split
  · rfl
  · dsimp only
    split
    · next h => exact isTag_of_ofWord? h
    · split <;> rfl

theorem Piece.lexeme?_ne_finish (p : Piece) : p.lexeme? ≠ some .finish := by
  cases p with
  | text content => simp [lexeme?]
  | unclosed rest => simp [lexeme?]
  | tag content =>
    simp only [lexeme?]
    split
    · simp
    · intro h
      have htag := Lexeme.isTag_ofContent content.strip
      rw [Option.some.inj h] at htag
      cases htag

namespace Scan

variable {file : Option Text} {p : Position} {piece : Piece} {ps : List Piece} {l : Lexeme}
  {ls : List Lexeme}

theorem ofPieces_cons (h : piece.lexeme? = some l) :
    ofPieces file p (piece :: ps) =
      (ofPieces file (p.advance piece.raw) ps).cons ⟨l, piece.raw, file, p⟩ := by
  cases piece with
  | text content =>
    obtain rfl := Option.some.inj h
    rfl
  | unclosed rest => cases h
  | tag content =>
    simp only [Piece.lexeme?] at h
    split at h
    · cases h
    · next hb =>
      obtain rfl := Option.some.inj h
      simp [ofPieces, Option.not_isSome_iff_eq_none.1 hb]

/-- A scan stops at a piece that is at fault, and the fault is said to stand where that does. -/
theorem ofPieces_cons_none (h : piece.lexeme? = none) :
    ∃ cause, ofPieces file p (piece :: ps) = ⟨[], .error ⟨cause, p, file⟩⟩ := by
  cases piece with
  | text content => cases h
  | unclosed rest => exact ⟨_, rfl⟩
  | tag content =>
    simp only [Piece.lexeme?] at h
    split at h
    · next hb =>
      obtain ⟨mark, hm⟩ := Option.isSome_iff_exists.1 hb
      exact ⟨.bareTag mark, by simp [ofPieces, hm]⟩
    · cases h

/-- A scan reaches the end exactly if no piece is at fault, and then its tokens ask for what the
pieces ask for. -/
theorem ofPieces_ok_iff :
    ((∃ last, (ofPieces file p ps).ending = .ok last) ∧
      (ofPieces file p ps).tokens.map Token.lexeme = ls) ↔ ps.map Piece.lexeme? = ls.map some := by
  induction ps generalizing p ls with
  | nil => cases ls <;> simp [ofPieces]
  | cons piece ps ih =>
    cases h : piece.lexeme? with
    | none =>
      obtain ⟨cause, hcause⟩ : ∃ cause, ofPieces file p (piece :: ps) =
        ⟨[], .error ⟨cause, p, file⟩⟩ := ofPieces_cons_none h
      cases ls <;> simp [hcause, h]
    | some l =>
      rw [ofPieces_cons h]
      cases ls with
      | nil => simp [cons]
      | cons m ls => simp [cons, h, ← ih (p := p.advance piece.raw), and_left_comm]

theorem lexeme_ne_finish {last : Token} (h : (ofPieces file p ps).ending = .ok last) :
    ∀ t ∈ (ofPieces file p ps).tokens, t.lexeme ≠ .finish := by
  intro t ht hf
  have hls := ofPieces_ok_iff.1 ⟨⟨last, h⟩, rfl⟩
  have hmem : some t.lexeme ∈ ps.map Piece.lexeme? := by
    rw [hls]
    exact List.mem_map_of_mem (List.mem_map_of_mem ht)
  obtain ⟨piece, -, hp⟩ := List.mem_map.1 hmem
  exact piece.lexeme?_ne_finish (hp.trans (congrArg some hf))

end Scan
end Stencil
