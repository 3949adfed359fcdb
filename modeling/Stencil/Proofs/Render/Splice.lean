import Stencil.Proofs.Render.Room
import Stencil.Proofs.Template.Division
import Stencil.Proofs.Template.Scan
/-! An inclusion does what the nodes of the included partial do in its place. -/
namespace Stencil

/-- The nodes with other nodes in place of every inclusion of a partial, at any depth. -/
def Node.splice (name : Text) (nodes ns : List Node) : List Node :=
  replace (fun location l => if l = .inclusion name then nodes else [.leaf location l]) id ns

def Template.splice (t : Template) (name : Text) (nodes : List Node) : Template :=
  { t with nodes := Node.splice name nodes t.nodes }

theorem Template.parse_nil (file : Option Text) :
    parse file [] = .ok ⟨file, ⟨file, .start, 0⟩, []⟩ := by
  have hnodes : Node.ofTokens [] = .ok [] := by
    rw [Node.ofTokens, Node.parseBody]
    rfl
  simp only [parse, Scan.ofSource, Piece.divide_nil, Scan.ofPieces, hnodes]
  rfl

namespace Trace

variable {P : RenderFailure → Prop} {a b : Trace}

/-- Courses that are alike in full yield the same page or the same failure. -/
theorem Alike.result_eq (h : Alike id id a b) (settings : Settings) :
    (Outcome.ofTrace settings a).result = (Outcome.ofTrace settings b).result := by
  have hw : a.warnings = b.warnings := by simpa using h.warnings
  have hf : a.failure = b.failure := by simpa using h.failure
  simp only [Outcome.ofTrace, h.output, hw, hf]

theorem UpTo.alike (h : UpTo P Eq a b) : UpTo P (Alike id id) a b := by
  rcases h with h | rfl
  · exact .inl h
  · exact .inr (.refl a)

end Trace

namespace Render

variable {partials : Partials} {name source : Text} {u : Template}

/-- The nodes of a partial do with a level more of room what its inclusion does; an empty partial
leaves no more than a line in the log. -/
theorem included_upTo_nodes (settings : Settings) (hsource : partials.get? name = some source)
    (hparse : Template.parse (some name) source = .ok u) (room : Nat) (s : Scope)
    (location : Location) :
    Trace.UpTo (OutOfRoom settings) (Trace.Alike id id)
      (included settings partials room s name location)
      (nodes settings (included settings partials room) u.nodes s) := by
  by_cases hs : source = []
  · subst hs
    rw [Template.parse_nil] at hparse
    obtain rfl := Except.ok.inj hparse
    rw [included_of_empty hsource]
    exact .inr ⟨rfl, rfl, rfl⟩
  · cases room with
    | zero =>
      rw [included_zero hsource hs]
      exact .inl ⟨_, rfl, name, location, rfl⟩
    | succ room =>
      rw [included_parsed hsource hs hparse]
      exact (nodes_upToRoom (fun _ _ _ _ => rfl) partials (Nat.le_succ room) u.nodes s).alike

theorem nodes_splice (settings : Settings) (hsource : partials.get? name = some source)
    (hparse : Template.parse (some name) source = .ok u) (room : Nat) (ns : List Node)
    (s : Scope) :
    Trace.UpTo (OutOfRoom settings) (Trace.Alike id id)
      (nodes settings (included settings partials room) ns s)
      (nodes settings (included settings partials room) (Node.splice name u.nodes ns) s) := by
  refine nodes_replace compatible_upToRoom ?_ ns s
  intro s location l
  split
  · next hl =>
    subst hl
    exact included_upTo_nodes settings hsource hparse room s location
  · rw [nodes_single_leaf]
    exact .inr (.refl _)

/-- A template and the one with the nodes of a partial in place of its inclusions yield the same
page or the same failure, unless the first ends at an inclusion that it has no room for: below the
nodes one inclusion more may nest. -/
theorem result_splice (t : Template) (settings : Settings) (partials : Partials) (context : Datum)
    (name source : Text) (u : Template) (hsource : partials.get? name = some source)
    (hparse : Template.parse (some name) source = .ok u)
    (hroom : ∀ included location,
      (t.render settings partials context).result ≠ .error (noRoom settings included location)) :
    ((t.splice name u.nodes).render settings partials context).result =
      (t.render settings partials context).result := by
  rcases nodes_splice settings hsource hparse settings.room t.nodes (Scope.ofDatum context) with
    ⟨f, hf, n, location, rfl⟩ | h
  · refine absurd ?_ (hroom n location)
    simp only [Template.render, run_eq, Outcome.ofTrace, hf]
  · exact (h.result_eq settings).symm

/-- A loop over `xs` that includes the partial `p`, which writes the element. -/
def loopOfInclusions : Template :=
  ⟨none, .unknown, [.each .unknown "xs" [.leaf .unknown (.inclusion "p")]]⟩

def elementPartial : Partials := ⟨[("p", tagOf "_value" ++ ";")]⟩

def twoElements : Datum := .mapping ⟨[("xs", .list [.int 1, .int 2])]⟩

theorem result_splice_in_loop :
    ∃ u, Template.parse (some "p") (tagOf "_value" ++ ";") = .ok u ∧
      ((loopOfInclusions.splice "p" u.nodes).render .default elementPartial
        twoElements).result.toOption = some ⟨"1;2;", []⟩ := by
  have hpage : (loopOfInclusions.render .default elementPartial twoElements).result.toOption =
      some ⟨"1;2;", []⟩ := by decide +kernel
  obtain ⟨u, hu⟩ := exists_ok_of_isOk
    (show (Template.parse (some "p") (tagOf "_value" ++ ";")).isOk by decide +kernel)
  refine ⟨u, hu, ?_⟩
  rw [result_splice loopOfInclusions .default elementPartial twoElements "p" _ u rfl hu]
  · exact hpage
  · intro name location h
    rw [h] at hpage
    cases hpage

end Render
end Stencil
