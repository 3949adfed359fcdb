import Mathlib.Data.List.Chain
import Stencil.Proofs.Template.Division
import Stencil.Proofs.Template.Scan
/-! A source has one decomposition into text and tags, and the tokens of a scan are its parts up to
the first fault. -/
namespace Stencil

/-- The only pair of `c` in a text with one more at its end is that one, if none ends before the
last character. -/
theorem Text.pair_last_iff {c : CodePoint} {s : Text} :
    (∀ before after, s ++ [c, c] = before ++ [c, c] ++ after → after = []) ↔
      ¬ [c, c] <:+: s ++ [c] := by
  constructor
  · rintro h ⟨u, v, huv⟩
    have hlast : v ++ [c] = [] := h u (v ++ [c]) (by
      rw [← List.append_assoc, huv]
      simp)
    simp at hlast
  · intro h before after heq
    rcases List.eq_nil_or_concat after with rfl | ⟨v, d, rfl⟩
    · rfl
    · refine absurd ⟨before, v, ?_⟩ h
      have hcut := congrArg List.dropLast heq
      rw [List.concat_eq_append, ← List.append_assoc, List.dropLast_concat,
        show s ++ [c, c] = s ++ [c] ++ [c] by simp, List.dropLast_concat] at hcut
      exact hcut.symm

namespace Piece

variable {p q : Piece} {ps qs : List Piece} {source s content rest : Text}

/-- A part that a decomposition may have: text with no opening braces in it, or a tag that ends at
the first closing braces after its opening ones. -/
def Proper : Piece → Prop
  | .text content => content ≠ [] ∧ ¬ openBraces <:+: content
  | .tag content =>
    ∀ before after, content ++ closeBraces = before ++ closeBraces ++ after → after = []
  | .unclosed _ => False

/-- Whether one part may follow another: text is not followed by text, and it leaves no brace to the
tag behind it. -/
def Meets : Piece → Piece → Prop
  | .text content, q => (∀ other, q ≠ .text other) ∧ content.getLast? ≠ some ↑ '\x7b'
  | _, _ => True

/-- A decomposition of a source into text and tags. -/
structure Decomposition (source : Text) (ps : List Piece) : Prop where
  raw : ps.flatMap Piece.raw = source
  proper : ∀ p ∈ ps, p.Proper
  meets : ps.IsChain Meets

theorem proper_tag_iff :
    (tag content).Proper ↔ ¬ [↑ '\x7d', ↑ '\x7d'] <:+: content ++ (['\x7d'] : Text) :=
  Text.pair_last_iff

theorem proper_of_mem_consText (hs : ¬ openBraces <:+: s) (hps : p ∈ ps → p.Proper)
    (hp : p ∈ consText s ps) : p.Proper := by
  unfold consText at hp
  split at hp
  · exact hps hp
  · next hne =>
    rcases List.mem_cons.1 hp with rfl | hp
    · exact ⟨by simpa using hne, hs⟩
    · exact hps hp

theorem meets_consText (hs : s.getLast? ≠ some ↑ '\x7b') (hps : ps.IsChain Meets)
    (hfirst : ∀ t, ps.head? ≠ some (.text t)) : (consText s ps).IsChain Meets := by
  unfold consText
  split
  · exact hps
  · refine hps.cons ?_
    intro q hq
    refine ⟨?_, hs⟩
    rintro t rfl
    exact hfirst t hq

theorem getLast?_ne_of_not_pair {c : CodePoint} (h : ¬ [c, c] <:+: s ++ [c]) : s.getLast? ≠ some c := by
  intro hlast
  obtain ⟨u, rfl⟩ := List.getLast?_eq_some_iff.1 hlast
  exact h ⟨u, [], by simp⟩

theorem not_braces_of_breakPair (h : source.breakPair '\x7b' = some (s, rest)) :
    ¬ openBraces <:+: s := by
  intro hbraces
  exact (Text.breakPair_eq_some_iff.1 h).2
    (hbraces.trans (List.prefix_append s [↑ '\x7b']).isInfix)

/-- The parts of a division are proper but for braces that are never closed. -/
theorem proper_of_mem_divide (hp : p ∈ divide source) (hclosed : ∀ rest, p ≠ .unclosed rest) :
    p.Proper := by
  fun_induction divide source with
  | case1 source h =>
    exact proper_of_mem_consText (Text.breakPair_eq_none_iff.1 h) (by simp) hp
  | case2 source before rest h h' =>
    refine proper_of_mem_consText (not_braces_of_breakPair h) ?_ hp
    intro hp
    exact absurd (List.mem_singleton.1 hp) (hclosed rest)
  | case3 source before rest h content after h' _ _ ih =>
    refine proper_of_mem_consText (not_braces_of_breakPair h) ?_ hp
    intro hp
    rcases List.mem_cons.1 hp with rfl | hp
    · exact proper_tag_iff.2 (Text.breakPair_eq_some_iff.1 h').2
    · exact ih hp

theorem meets_divide (source : Text) : (divide source).IsChain Meets := by
  fun_induction divide source with
  | case1 source h =>
    unfold consText
    split
    · exact List.isChain_nil
    · exact List.isChain_singleton _
  | case2 source before rest h h' =>
    exact meets_consText (getLast?_ne_of_not_pair (Text.breakPair_eq_some_iff.1 h).2)
      (List.isChain_singleton _) (by simp)
  | case3 source before rest h content after h' _ _ ih =>
    exact meets_consText (getLast?_ne_of_not_pair (Text.breakPair_eq_some_iff.1 h).2)
      (ih.cons fun _ _ => trivial) (by simp)

/-- A proper tag is read off whatever follows it. -/
theorem divide_tag_append (h : (tag content).Proper) (rest : Text) :
    divide (tagOf content ++ rest) = .tag content :: divide rest := by
  have hopen : Text.breakPair '\x7b' (tagOf content ++ rest) =
      some ([], content ++ closeBraces ++ rest) := by
    simp [tagOf, openBraces, Text.breakPair_pair]
  have hclose : Text.breakPair '\x7d' (content ++ closeBraces ++ rest) = some (content, rest) :=
    Text.breakPair_eq_some_iff.2 ⟨by simp [closeBraces], proper_tag_iff.1 h⟩
  exact divide_of_tag hopen hclose

theorem divide_tag (h : (tag content).Proper) : divide (tagOf content) = [.tag content] := by
  have hdivide := divide_tag_append h []
  rwa [List.append_nil, divide_nil] at hdivide

/-- Behind parts that are all closed and leave no brace to it, too, a proper tag is a part of its own. -/
theorem divide_append_tag (hclosed : ∀ rest, .unclosed rest ∉ divide s)
    (hlast : s.getLast? ≠ some ↑ '\x7b') (h : (tag content).Proper) (rest : Text) :
    divide (s ++ tagOf content ++ rest) = divide s ++ .tag content :: divide rest := by
  rw [List.append_assoc, divide_append hclosed fun hseam => hlast hseam.1, divide_tag_append h,
    join_tag]

/-- Proper text is read off what starts with no text and with no brace for its own end. -/
theorem divide_text_append (h : (text content).Proper) (hlast : content.getLast? ≠ some ↑ '\x7b')
    (hfirst : ∀ t, (divide rest).head? ≠ some (.text t)) :
    divide (content ++ rest) = .text content :: divide rest := by
  obtain ⟨hne, hpair⟩ := h
  have hjoin := divide_append_of_text (Text.breakPair_eq_none_iff.2 hpair)
    (b := rest) fun hseam => hlast hseam.1
  have hcontent : consText content [] = [.text content] := by simp [consText, hne]
  rw [hjoin, hcontent]
  cases hd : divide rest with
  | nil => rfl
  | cons q qs =>
    cases q with
    | text t => exact absurd (by rw [hd]; rfl) (hfirst t)
    | tag content => rfl
    | unclosed rest => rfl

/-- Dividing a source finds every decomposition of it, so there is at most one. -/
theorem divide_of_decomposition (h : Decomposition source ps) : divide source = ps := by
  induction ps generalizing source with
  | nil =>
    obtain rfl := h.raw
    exact divide_of_text rfl
  | cons p ps ih =>
    obtain ⟨rfl, hproper, hmeets⟩ := h
    have hrest : divide (ps.flatMap raw) = ps :=
      ih ⟨rfl, fun q hq => hproper q (List.mem_cons_of_mem p hq), hmeets.tail⟩
    have hp : p.Proper := hproper p List.mem_cons_self
    rw [List.flatMap_cons]
    cases p with
    | unclosed rest => exact hp.elim
    | tag content => rw [raw, divide_tag_append hp, hrest]
    | text content =>
      cases ps with
      | nil =>
        rw [raw, List.flatMap_nil, List.append_nil,
          divide_of_text (Text.breakPair_eq_none_iff.2 hp.2)]
        simp [consText, hp.1]
      | cons q qs =>
        have hq : Meets (.text content) q := (List.isChain_cons_cons.1 hmeets).1
        rw [raw, divide_text_append hp hq.2, hrest]
        rw [hrest]
        rintro t ht
        exact hq.1 t (Option.some.inj ht)

end Piece
end Stencil
