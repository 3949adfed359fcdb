import Mathlib.Data.Prod.Lex
import Mathlib.Order.Monotone.Basic
import Stencil.Proofs.Template.FaultPlace
/-! Offsets of a source and its places by line and column: each offset has one place, each place one
offset, and both are in the same order. -/
namespace Stencil

namespace Position

variable {source s t : Text} {line column line' column' : Nat} {lines : List Text}

/-- Line and column, the line deciding first which of two places comes first. -/
def place (p : Position) : Nat ×ₗ Nat := toLex (p.line, p.column)

/-- The number of characters of whole lines, each with its line feed. -/
def extent : List Text → Nat
  | [] => 0
  | l :: ls => l.length + 1 + extent ls

/-- The number of characters in front of a line, the lines being counted from one. -/
def lineOffset (source : Text) (line : Nat) : Nat :=
  extent ((source.splitOn '\n').take (line - 1))

/-- The places of a source. A line has a column for each of its characters and for its line feed; the
last line, which has none, has columns without end. -/
structure IsPlace (source : Text) (line column : Nat) : Prop where
  line_pos : 1 ≤ line
  line_le : line ≤ (source.splitOn '\n').length
  column_pos : 1 ≤ column
  column_le : line < (source.splitOn '\n').length →
    lineOffset source line + column ≤ lineOffset source (line + 1)

theorem extent_append (ls ms : List Text) : extent (ls ++ ms) = extent ls + extent ms := by
  induction ls with
  | nil => exact (Nat.zero_add _).symm
  | cons l ls ih =>
    rw [List.cons_append, extent, extent, ih]
    exact (Nat.add_assoc _ _ _).symm

theorem lineOffset_mono (source : Text) (h : line ≤ line') :
    lineOffset source line ≤ lineOffset source line' := by
  obtain ⟨k, hk⟩ := Nat.exists_eq_add_of_le (Nat.sub_le_sub_right h 1)
  rw [lineOffset, lineOffset, hk, List.take_add, extent_append]
  exact Nat.le_add_right _ _

/-- A place in an earlier line has fewer characters in front of it. -/
theorem IsPlace.offset_lt (h : IsPlace source line column) (h' : IsPlace source line' column')
    (hlt : line < line') :
    lineOffset source line + (column - 1) < lineOffset source line' + (column' - 1) := by
  have hnext := h.column_le (Nat.lt_of_lt_of_le hlt h'.line_le)
  have hmono := lineOffset_mono source (Nat.succ_le_of_lt hlt)
  have hcolumn := h.column_pos
  rw [Nat.succ_eq_add_one] at hmono
  omega

/-- So a place is known from the number of characters in front of it. -/
theorem IsPlace.unique (h : IsPlace source line column) (h' : IsPlace source line' column')
    (heq : lineOffset source line + (column - 1) = lineOffset source line' + (column' - 1)) :
    line = line' ∧ column = column' := by
  have hcolumn := h.column_pos
  have hcolumn' := h'.column_pos
  rcases Nat.lt_trichotomy line line' with hlt | rfl | hlt
  · have := h.offset_lt h' hlt
    omega
  · exact ⟨rfl, by omega⟩
  · have := h'.offset_lt h hlt
    omega

/-- A text up to somewhere in a source: the whole lines in it, and what it has of the next one. -/
structure Ends (s : Text) (lines : List Text) (tail : Text) : Prop where
  notMem : ↑ '\n' ∉ tail
  length : s.length = extent lines + tail.length
  line : (start.advance s).line = lines.length + 1
  column : (start.advance s).column = tail.length + 1
  splitOn : ∀ t : Text, (s ++ t).splitOn '\n' = lines ++ (tail ++ t).splitOn '\n'

theorem exists_ends (s : Text) : ∃ lines tail, Ends s lines tail := by
  induction s using List.reverseRecOn with
  | nil => exact ⟨[], [], by simp, rfl, rfl, rfl, fun t => rfl⟩
  | append_singleton s c ih =>
    obtain ⟨lines, tail, h⟩ := ih
    have hadvance : start.advance (s ++ [c]) = (start.advance s).next c := advance_append _ _ _
    by_cases hc : c = '\n'
    · -- The line that was begun is whole now.
      have hnext : (start.advance s).next c = ⟨_, (start.advance s).line + 1, 1⟩ := if_pos hc
      refine ⟨lines ++ [tail], [], by simp, ?_, ?_, ?_, ?_⟩
      · rw [List.length_append, h.length, extent_append]
        simp [extent]
        omega
      · rw [hadvance, hnext, h.line, List.length_append]
        rfl
      · rw [hadvance, hnext]
        rfl
      · intro t
        have happend : s ++ [c] ++ t = s ++ ↑ '\n' :: t := by simp [hc]
        rw [happend, h.splitOn, Text.splitOn_append, Text.splitOn_of_notMem h.notMem]
        simp
    · have hnext : (start.advance s).next c =
          ⟨_, (start.advance s).line, (start.advance s).column + 1⟩ := if_neg hc
      refine ⟨lines, tail ++ [c], ?_, ?_, ?_, ?_, ?_⟩
      · simp [h.notMem, Ne.symm hc]
      · rw [List.length_append, h.length, List.length_append]
        exact Nat.add_assoc _ _ _
      · rw [hadvance, hnext, h.line]
      · rw [hadvance, hnext, h.column, List.length_append]
        rfl
      · intro t
        rw [List.append_assoc, h.splitOn, List.append_assoc]

/-- The place at an offset of a source, by the whole lines in front of it. -/
structure At (source : Text) (o : Nat) (lines : List Text) (tail rest : Text) : Prop where
  splitOn : source.splitOn '\n' = lines ++ (tail ++ rest).splitOn '\n'
  notMem : ↑ '\n' ∉ tail
  line : (ofOffset source o).line = lines.length + 1
  column : (ofOffset source o).column = tail.length + 1 + (o - source.length)
  offset : extent lines + tail.length + (o - source.length) = o
  inside : rest ≠ [] → o < source.length

theorem exists_at (source : Text) (o : Nat) : ∃ lines tail rest, At source o lines tail rest := by
  obtain ⟨lines, tail, h⟩ := exists_ends (source.take o)
  refine ⟨lines, tail, source.drop o, ?_, h.notMem, h.line, ?_, ?_, ?_⟩
  · rw [← h.splitOn, List.take_append_drop]
  · rw [← h.column]
    rfl
  · rw [← h.length, List.length_take]
    omega
  · intro hrest
    exact Nat.lt_of_not_le fun hle => hrest (List.drop_eq_nil_of_le hle)

namespace At

variable {o : Nat} {tail rest : Text}

theorem lineOffset_line (h : At source o lines tail rest) :
    lineOffset source (ofOffset source o).line = extent lines := by
  rw [lineOffset, h.line, h.splitOn, Nat.add_sub_cancel, List.take_left]

theorem lineOffset_add (h : At source o lines tail rest) :
    lineOffset source (ofOffset source o).line + ((ofOffset source o).column - 1) = o := by
  have hoffset := h.offset
  rw [h.lineOffset_line, h.column]
  omega

/-- A line with a line behind it goes on up to its line feed. -/
theorem column_le (h : At source o lines tail rest)
    (hnext : (ofOffset source o).line < (source.splitOn '\n').length) :
    lineOffset source (ofOffset source o).line + (ofOffset source o).column ≤
      lineOffset source ((ofOffset source o).line + 1) := by
  have hmem : ↑ '\n' ∈ rest := by
    by_contra hrest
    have hone : ↑ '\n' ∉ tail ++ rest := by simp [h.notMem, hrest]
    rw [h.line, h.splitOn, Text.splitOn_of_notMem hone, List.length_append] at hnext
    exact Nat.lt_irrefl _ hnext
  obtain ⟨more, after, hrest, hmore⟩ := List.eq_append_cons_of_mem hmem
  have hinside : o < source.length := h.inside (List.ne_nil_of_mem hmem)
  have hsplit : source.splitOn '\n' = lines ++ [tail ++ more] ++ Text.splitOn '\n' after := by
    have hline : ↑ '\n' ∉ tail ++ more := by simp [h.notMem, hmore]
    rw [h.splitOn, hrest, ← List.append_assoc, Text.splitOn_append_cons hline]
    simp
  have hend : lineOffset source ((ofOffset source o).line + 1) =
      extent (lines ++ [tail ++ more]) := by
    have hcount : (ofOffset source o).line + 1 - 1 = (lines ++ [tail ++ more]).length := by
      rw [h.line, List.length_append]
      rfl
    rw [lineOffset, hcount, hsplit, List.take_left]
  rw [hend, h.lineOffset_line, h.column, extent_append]
  simp only [extent, List.length_append]
  omega

theorem isPlace (h : At source o lines tail rest) :
    IsPlace source (ofOffset source o).line (ofOffset source o).column where
  line_pos := by rw [h.line]; exact Nat.le_add_left _ _
  line_le := by
    have hpieces := List.length_pos_of_ne_nil (Text.splitOn_ne_nil '\n' (tail ++ rest))
    rw [h.line, h.splitOn, List.length_append]
    omega
  column_pos := by rw [h.column]; omega
  column_le := h.column_le

end At

theorem isPlace_ofOffset (source : Text) (o : Nat) :
    IsPlace source (ofOffset source o).line (ofOffset source o).column := by
  obtain ⟨lines, tail, rest, h⟩ := exists_at source o
  exact h.isPlace

theorem lineOffset_ofOffset (source : Text) (o : Nat) :
    lineOffset source (ofOffset source o).line + ((ofOffset source o).column - 1) = o := by
  obtain ⟨lines, tail, rest, h⟩ := exists_at source o
  exact h.lineOffset_add

/-- Every place of a source is that of one offset: the number of characters in front of it. -/
theorem IsPlace.existsUnique (h : IsPlace source line column) :
    ∃! o, (ofOffset source o).line = line ∧ (ofOffset source o).column = column := by
  refine ⟨lineOffset source line + (column - 1), ?_, ?_⟩
  · exact (isPlace_ofOffset source _).unique h (lineOffset_ofOffset source _)
  · rintro o ⟨rfl, rfl⟩
    exact (lineOffset_ofOffset source o).symm

theorem strictMono_place (source : Text) : StrictMono fun o => (ofOffset source o).place := by
  intro o o' hlt
  have hplace := isPlace_ofOffset source o
  have hplace' := isPlace_ofOffset source o'
  have ho := lineOffset_ofOffset source o
  have ho' := lineOffset_ofOffset source o'
  refine Prod.Lex.toLex_lt_toLex.2 ?_
  dsimp only
  rcases Nat.lt_trichotomy (ofOffset source o).line (ofOffset source o').line with
    hline | hline | hline
  · exact .inl hline
  · rw [hline] at ho
    exact .inr ⟨hline, by omega⟩
  · -- A later line for the earlier offset would put more characters in front of it.
    have := hplace'.offset_lt hplace hline
    omega

end Position

theorem Piece.raw_ne_nil_of_mem_divide {piece : Piece} {source : Text}
    (h : piece ∈ Piece.divide source) : piece.raw ≠ [] := by
  cases piece with
  | unclosed rest => exact List.append_ne_nil_of_left_ne_nil (by decide) _
  | text | tag => exact raw_ne_nil_of_proper (proper_of_mem_divide h nofun)

namespace Scan

variable {file : Option Text} {source : Text} {p : Position} {ps : List Piece} {ts : List Token}
  {t last : Token}

/-- The tokens of parts stand one behind the other, in front of what comes next. -/
theorem pairwise_of_reads (h : Reads file p ps ts) (hps : ∀ q ∈ ps, q.raw ≠ []) :
    ts.Pairwise (fun t u => t.start.offset < u.start.offset) ∧
      ∀ t ∈ ts, p.offset ≤ t.start.offset ∧
        t.start.offset < (p.advance (ps.flatMap Piece.raw)).offset := by
  induction h with
  | nil p => exact ⟨List.Pairwise.nil, nofun⟩
  | @cons p piece l ps ts _ _ ih =>
    obtain ⟨hpiece, hps⟩ := List.forall_mem_cons.1 hps
    obtain ⟨hpairwise, hbounds⟩ := ih hps
    have hraw : 0 < piece.raw.length := List.length_pos_of_ne_nil hpiece
    simp only [Position.offset_advance, List.flatMap_cons, List.length_append] at hbounds ⊢
    refine ⟨List.pairwise_cons.2 ⟨?_, hpairwise⟩, List.forall_mem_cons.2 ⟨?_, ?_⟩⟩
    · intro t ht
      have := hbounds t ht
      dsimp only
      omega
    · dsimp only
      omega
    · intro t ht
      have := hbounds t ht
      omega

/-- The token of the end stands behind the source, all of which has been read. -/
theorem reads_of_ending (h : (ofSource file source).ending = .ok last) :
    Reads file .start (Piece.divide source) (ofSource file source).tokens ∧
      last = ⟨.finish, [], file, .ofOffset source source.length⟩ := by
  rcases ofPieces_cases file .start (Piece.divide source) with
    ⟨ts, hts⟩ | ⟨done, bad, rest, ts, cause, -, -, -, hscan⟩
  · have hend := Position.ofOffset_append source []
    rw [List.append_nil] at hend
    rw [ofSource, ofPieces_of_reads hts] at h ⊢
    refine ⟨hts, ?_⟩
    rw [← Except.ok.inj h, Piece.flatMap_raw_divide, hend]
  · rw [ofSource, hscan] at h
    cases h

/-- The place of a token is that of its offset in the source. -/
theorem location_of_mem_all (ht : t ∈ (ofSource file source).all) :
    t.location = .ofOffset source t.start.offset (some t.stop) file := by
  have hmem : t ∈ (ofSource file source).tokens ∨ (ofSource file source).ending = .ok t := by
    unfold all at ht
    split at ht
    · next last hlast =>
      rcases List.mem_append.1 ht with ht | ht
      · exact .inl ht
      · exact .inr (List.mem_singleton.1 ht ▸ hlast)
    · exact .inl ht
  rcases hmem with ht | hlast
  · obtain ⟨before, piece, after, l, -, -, rfl⟩ := exists_piece_of_mem ht
    rfl
  · obtain ⟨-, rfl⟩ := reads_of_ending hlast
    rfl

theorem pairwise_offset_all (file : Option Text) (source : Text) :
    (ofSource file source).all.Pairwise fun t u => t.start.offset < u.start.offset := by
  have hraw : ∀ q ∈ Piece.divide source, q.raw ≠ [] := fun _ => Piece.raw_ne_nil_of_mem_divide
  unfold all
  split
  · next last hlast =>
    obtain ⟨hreads, rfl⟩ := reads_of_ending hlast
    obtain ⟨hpairwise, hbounds⟩ := pairwise_of_reads hreads hraw
    rw [Piece.flatMap_raw_divide, Position.offset_advance] at hbounds
    refine List.pairwise_append.2 ⟨hpairwise, List.pairwise_singleton _ _, ?_⟩
    intro t ht u hu
    rw [List.mem_singleton.1 hu]
    exact Nat.zero_add source.length ▸ (hbounds t ht).2
  · obtain ⟨done, rest, hdivide, hreads⟩ := exists_reads_ofSource file source
    refine (pairwise_of_reads hreads fun q hq => hraw q ?_).1
    exact hdivide ▸ List.mem_append_left rest hq

end Scan

namespace Location

/-- Offsets and places correspond. The place of an offset, also of one past the end, is a place of the
source that has as many characters in front of it, and every place is that of one offset. Later
offsets have later places, and so have the tokens of a source, the one of its end included. -/
theorem ofOffset_corresponds (source : Text) (file : Option Text) :
    (∀ o stop, let p := (Location.ofOffset source o stop file).start
      Position.IsPlace source p.line p.column ∧
        Position.lineOffset source p.line + (p.column - 1) = o) ∧
    (∀ line column, Position.IsPlace source line column → ∃! o, ∀ stop,
      let p := (Location.ofOffset source o stop file).start
      p.line = line ∧ p.column = column) ∧
    (∀ o o' stop stop', o < o' → (Location.ofOffset source o stop file).start.place <
      (Location.ofOffset source o' stop' file).start.place) ∧
    (∀ t ∈ (Scan.ofSource file source).all,
      t.location = Location.ofOffset source t.start.offset (some t.stop) file) ∧
    (Scan.ofSource file source).all.Pairwise fun t u =>
      t.location.start.place < u.location.start.place := by
  refine ⟨?_, ?_, ?_, fun _ => Scan.location_of_mem_all, ?_⟩
  · exact fun o _ => ⟨Position.isPlace_ofOffset source o, Position.lineOffset_ofOffset source o⟩
  · intro line column h
    obtain ⟨o, ho, hunique⟩ := h.existsUnique
    exact ⟨o, fun _ => ho, fun o' ho' => hunique o' (ho' none)⟩
  · exact fun o o' _ _ hlt => Position.strictMono_place source hlt
  · refine (Scan.pairwise_offset_all file source).imp_of_mem ?_
    intro t u ht hu hlt
    rw [Scan.location_of_mem_all ht, Scan.location_of_mem_all hu]
    exact Position.strictMono_place source hlt

/-- A line of text, a line with a tag, and an empty last line. -/
def taggedLines : Text := "ab\n\x7b\x7bc\x7d\x7d\n"

/-- On a line feed and right behind it, at the end and past it. -/
theorem ofOffset_corresponds_taggedLines :
    (2 < 3 ∧ (ofOffset taggedLines 2 none none).start.place <
      (ofOffset taggedLines 3 none none).start.place) ∧
    (9 < 12 ∧ (ofOffset taggedLines 9 none none).start.place <
      (ofOffset taggedLines 12 none none).start.place) ∧
    (Position.IsPlace taggedLines 3 4 ∧ ∃! o, ∀ stop,
      let p := (ofOffset taggedLines o stop none).start
      p.line = 3 ∧ p.column = 4) ∧
    (Scan.ofSource none taggedLines).all.map (·.location.start.place) =
      [toLex (1, 1), toLex (2, 1), toLex (2, 6), toLex (3, 1)] := by
  obtain ⟨hplace, hunique, hmono, -, -⟩ := ofOffset_corresponds taggedLines none
  have hpast : Position.IsPlace taggedLines 3 4 := (hplace 12 none).1
  exact ⟨⟨by decide, hmono 2 3 _ _ (by decide)⟩, ⟨by decide, hmono 9 12 _ _ (by decide)⟩,
    ⟨hpast, hunique 3 4 hpast⟩, by decide +kernel⟩

end Location
end Stencil
