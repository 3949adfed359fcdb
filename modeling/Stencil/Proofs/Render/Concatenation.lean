import Stencil.Proofs.Render.Unplaced
import Stencil.Proofs.Template.Division
/-! Two sources one after the other render as they do by themselves. -/
namespace Stencil

namespace Piece

variable {p : Piece} {ps : List Piece} {content : Text} {ns : List Node} {ls : List Lexeme}

theorem exists_lexeme_of_mem (h : ps.map lexeme? = ls.map some) (hp : p ∈ ps) :
    ∃ l, p.lexeme? = some l := by
  have hmem : p.lexeme? ∈ ls.map some := h ▸ List.mem_map_of_mem hp
  obtain ⟨l, -, hl⟩ := List.mem_map.1 hmem
  exact ⟨l, hl.symm⟩

/-- Pieces that all ask for something hold no tag that is left open. -/
theorem unclosed_not_mem (h : ps.map lexeme? = ls.map some) (rest : Text) :
    .unclosed rest ∉ ps := by
  intro hmem
  obtain ⟨l, hl⟩ := exists_lexeme_of_mem h hmem
  cases hl

/-- Text in front of the pieces is in front of their tree. -/
theorem exists_text_first
    (h : (Piece.text content :: ps).map lexeme? = (Node.lexemes ns).map some) :
    ∃ location tail, ns = .leaf location (.text content) :: tail ∧
      ps.map lexeme? = (Node.lexemes tail).map some := by
  rw [List.map_cons] at h
  obtain ⟨m, ms, hlexemes, hm, hms⟩ := List.map_eq_cons_iff.1 h.symm
  obtain rfl := Option.some.inj hm
  obtain ⟨location, tail, hns, rfl⟩ := Node.exists_of_lexemes_cons hlexemes
  exact ⟨location, tail, hns, hms.symm⟩

/-- Text at the end of the pieces is at the end of their tree. -/
theorem exists_text_last
    (h : (ps ++ [Piece.text content]).map lexeme? = (Node.lexemes ns).map some) :
    ∃ front location, ns = front ++ [.leaf location (.text content)] ∧
      ps.map lexeme? = (Node.lexemes front).map some := by
  rw [List.map_append] at h
  obtain ⟨ls, ms, hlexemes, hls, hms⟩ := List.map_eq_append_iff.1 h.symm
  obtain ⟨m, rfl, hm⟩ := List.map_eq_singleton_iff.1 hms
  obtain rfl := Option.some.inj hm
  obtain ⟨front, location, hns, rfl⟩ := Node.exists_of_lexemes_concat hlexemes
  exact ⟨front, location, hns, hls.symm⟩

end Piece

namespace Trace

/-- A text written at once shows as its parts do. -/
theorem alike_wrote_append {α β : Type} (seen : Warning → α) (why : RenderFailure → β)
    (s t : Text) : Alike seen why (wrote (s ++ t)) (wrote s ++ wrote t) := by
  cases s with
  | nil => exact .refl _
  | cons c s =>
    cases t with
    | nil =>
      rw [List.append_nil]
      exact .symm (append_empty (wrote (c :: s)) ▸ .refl _)
    | cons d t =>
      refine ⟨?_, rfl, rfl⟩
      show (c :: s ++ d :: t) ++ [] = (c :: s) ++ ((d :: t) ++ [])
      simp

end Trace

namespace Outcome

variable {settings : Settings} {a : Trace} {r : Rendering}

theorem result_eq_ok_iff :
    (ofTrace settings a).result = .ok r ↔ a.failure = none ∧ r = ⟨a.output, a.warnings⟩ := by
  cases h : a.failure <;> simp [ofTrace, h, eq_comm]

theorem exists_result_iff :
    (∃ r, (ofTrace settings a).result = .ok r) ↔ a.failure = none := by
  simp [result_eq_ok_iff]

end Outcome

namespace Render

variable {a b : Text} {fileA fileB : Option Text} {ta tb : Template}

/-- The trees of two sources make one that asks for what the joined source asks for, and that does
apart from places what they do one after the other. -/
theorem exists_nodes_append (settings : Settings) (partials : Partials) (room : Nat) (s : Scope)
    (ha : Template.parse fileA a = .ok ta) (hb : Template.parse fileB b = .ok tb)
    (hseam : ¬ (a.getLast? = some ↑ '\x7b' ∧ b.head? = some ↑ '\x7b')) :
    ∃ ns, (Piece.divide (a ++ b)).map Piece.lexeme? = (Node.lexemes ns).map some ∧
      Trace.AlikeApart (nodes settings (included settings partials room) ns s)
        (nodes settings (included settings partials room) ta.nodes s ++
          nodes settings (included settings partials room) tb.nodes s) := by
  have hla := Template.lexemes_of_parse ha
  have hlb := Template.lexemes_of_parse hb
  rw [Piece.divide_append (Piece.unclosed_not_mem hla) hseam]
  rcases Piece.join_cases (Piece.divide a) (Piece.divide b) with
    hjoin | ⟨xs, u, v, ys, hxs, hys, hjoin⟩
  · refine ⟨ta.nodes ++ tb.nodes, ?_, ?_⟩
    · rw [hjoin, List.map_append, hla, hlb, Node.lexemes_append, List.map_append]
    · rw [nodes_append]
      exact .refl _
  · -- text ends the first tree and starts the second
    rw [hxs] at hla
    rw [hys] at hlb
    obtain ⟨front, location, hta, hfront⟩ := Piece.exists_text_last hla
    obtain ⟨location', tail, htb, htail⟩ := Piece.exists_text_first hlb
    refine ⟨front ++ .leaf location (.text (u ++ v)) :: tail, ?_, ?_⟩
    · rw [hjoin]
      simp [hfront, htail, Piece.lexeme?]
    · rw [hta, htb, nodes_append, nodes_append, Trace.append_assoc]
      refine Trace.compatible_alike.append (.refl _) ?_
      rw [nodes_leaf, nodes_leaf, nodes_leaf]
      show Trace.AlikeApart _ ((Trace.wrote u ++ .empty) ++ (Trace.wrote v ++ _))
      rw [Trace.append_empty, ← Trace.append_assoc]
      exact Trace.compatible_alike.append (Trace.alike_wrote_append _ _ u v) (.refl _)

/-- The joined source parses, and its tree does apart from places what the trees of the two sources
do one after the other. -/
theorem exists_parse_append (settings : Settings) (partials : Partials) (file : Option Text)
    (room : Nat) (s : Scope) (ha : Template.parse fileA a = .ok ta)
    (hb : Template.parse fileB b = .ok tb)
    (hseam : ¬ (a.getLast? = some ↑ '\x7b' ∧ b.head? = some ↑ '\x7b')) :
    ∃ t, Template.parse file (a ++ b) = .ok t ∧
      Trace.AlikeApart (nodes settings (included settings partials room) t.nodes s)
        (nodes settings (included settings partials room) ta.nodes s ++
          nodes settings (included settings partials room) tb.nodes s) := by
  obtain ⟨ns, hls, hns⟩ := exists_nodes_append settings partials room s ha hb hseam
  obtain ⟨t, ht, hlexemes⟩ := Template.exists_parse_of_lexemes file hls
  exact ⟨t, ht, (nodes_of_lexemes hlexemes room s).trans hns⟩

/-- Two sources that parse, no brace of the first meeting one of the second, parse as one. The
render of the whole succeeds exactly if those of both parts do, and then it writes what they write
and gives their warnings, which only stand elsewhere. -/
theorem result_append (settings : Settings) (partials : Partials) (context : Datum)
    (file fileA fileB : Option Text) (a b : Text)
    (ha : ∃ t, Template.parse fileA a = .ok t) (hb : ∃ t, Template.parse fileB b = .ok t)
    (hseam : ¬ (a.getLast? = some ↑ '\x7b' ∧ b.head? = some ↑ '\x7b')) :
    (∃ t, Template.parse file (a ++ b) = .ok t) ∧
      ((∃ r, (renderSource settings partials file (a ++ b) context).result = .ok r) ↔
        (∃ r, (renderSource settings partials fileA a context).result = .ok r) ∧
          ∃ r, (renderSource settings partials fileB b context).result = .ok r) ∧
      ∀ r ra rb, (renderSource settings partials file (a ++ b) context).result = .ok r →
        (renderSource settings partials fileA a context).result = .ok ra →
        (renderSource settings partials fileB b context).result = .ok rb →
        r.output = ra.output ++ rb.output ∧
          r.warnings.map Warning.notice =
            ra.warnings.map Warning.notice ++ rb.warnings.map Warning.notice := by
  obtain ⟨ta, ha⟩ := ha
  obtain ⟨tb, hb⟩ := hb
  obtain ⟨t, ht, halike⟩ := exists_parse_append settings partials file settings.room
    (Scope.ofDatum context) ha hb hseam
  simp only [renderSource, ht, ha, hb, Template.render, run_eq]
  generalize nodes settings (included settings partials settings.room) t.nodes
    (Scope.ofDatum context) = whole at halike ⊢
  generalize nodes settings (included settings partials settings.room) ta.nodes
    (Scope.ofDatum context) = first at halike ⊢
  generalize nodes settings (included settings partials settings.room) tb.nodes
    (Scope.ofDatum context) = second at halike ⊢
  refine ⟨⟨t, rfl⟩, ?_, ?_⟩
  · rw [Outcome.exists_result_iff, Outcome.exists_result_iff, Outcome.exists_result_iff,
      halike.failure_eq_none_iff, Trace.failure_append_eq_none_iff]
  · intro r ra rb hr hra hrb
    obtain ⟨-, rfl⟩ := Outcome.result_eq_ok_iff.1 hr
    obtain ⟨hfirst, rfl⟩ := Outcome.result_eq_ok_iff.1 hra
    obtain ⟨-, rfl⟩ := Outcome.result_eq_ok_iff.1 hrb
    have houtput := halike.output
    have hwarnings := halike.warnings
    rw [Trace.append_of_none hfirst] at houtput hwarnings
    exact ⟨by simpa [Trace.output] using houtput, by simpa [Trace.warnings] using hwarnings⟩

/-- Braces that meet outside of tags stay text, and a missing partial is noticed as before. -/
theorem result_append_at_braces :
    ∃ r, (renderSource .default .empty none ((tagOf "x" ++ "\x7d") ++ ("\x7d" ++ tagOf "> p"))
        (.mapping ⟨[("x", .int 1)]⟩)).result = .ok r ∧
      r.output = "1\x7d\x7d" ∧
      r.warnings.map Warning.notice = [(Warning.kind, Warning.message ⟨"p", .unknown⟩)] := by
  obtain ⟨ta, hta⟩ := exists_ok_of_isOk
    (show (Template.parse none (tagOf "x" ++ "\x7d")).isOk by decide +kernel)
  obtain ⟨tb, htb⟩ := exists_ok_of_isOk
    (show (Template.parse none ("\x7d" ++ tagOf "> p")).isOk by decide +kernel)
  have hpageA : (renderSource .default .empty none (tagOf "x" ++ "\x7d")
      (.mapping ⟨[("x", .int 1)]⟩)).result = .ok ⟨"1\x7d", []⟩ :=
    ok_of_toOption (by decide +kernel)
  have hpageB : (renderSource .default .empty none ("\x7d" ++ tagOf "> p")
      (.mapping ⟨[("x", .int 1)]⟩)).result = .ok ⟨"\x7d", [⟨"p", ⟨none, ⟨1, 1, 2⟩, 8⟩⟩]⟩ :=
    ok_of_toOption (by decide +kernel)
  obtain ⟨-, hiff, hpage⟩ := result_append .default .empty (.mapping ⟨[("x", .int 1)]⟩) none none
    none (tagOf "x" ++ "\x7d") ("\x7d" ++ tagOf "> p") ⟨ta, hta⟩ ⟨tb, htb⟩ (by decide +kernel)
  obtain ⟨r, hr⟩ := hiff.2 ⟨⟨_, hpageA⟩, ⟨_, hpageB⟩⟩
  obtain ⟨houtput, hwarnings⟩ := hpage r _ _ hr hpageA hpageB
  exact ⟨r, hr, houtput, hwarnings⟩

end Render
end Stencil
