import Stencil.Partials
import Stencil.Template.Parse
import Stencil.Proofs.Template.Forest
/-! What a render of a tree can come to ask for: the tree's own lexemes and, time and again, those
of the partials that are included. -/
namespace Stencil

/-- The path of the value that a lexeme needs. -/
def Lexeme.path? : Lexeme → Option Text
  | .leaf (.value path) | .leaf (.markdown _ path) | .leaf (.json path) | .eachOpen path
  | .ifOpen path => some path
  | _ => none

namespace Node

/-- The lexemes of a tree and of the partials that are included from it, directly or not. A partial
that is missing or does not parse has none. -/
inductive Reachable (partials : Partials) (ns : List Node) : Lexeme → Prop where
  | own {l : Lexeme} (h : l ∈ lexemes ns) : Reachable partials ns l
  | included {name source : Text} {u : Template} {l : Lexeme}
    (hname : Reachable partials ns (.leaf (.inclusion name)))
    (hsource : partials.get? name = some source)
    (hparse : Template.parse (some name) source = .ok u) (hl : l ∈ lexemes u.nodes) :
    Reachable partials ns l

variable {partials : Partials} {ms ns : List Node} {names : List Text}

/-- What a lexeme brings in with it: an inclusion the lexemes of its partial. -/
def brings (partials : Partials) : Lexeme → List Lexeme
  | .leaf (.inclusion name) =>
    match partials.get? name with
    | none => []
    | some source => match Template.parse (some name) source with
      | .error _ => []
      | .ok u => lexemes u.nodes
  | _ => []

/-- Lexemes among which is all that the tree asks for and all that they bring in are all that can be
reached. -/
theorem Reachable.mem_of_closed {ls : List Lexeme} {l : Lexeme} (hown : lexemes ns ⊆ ls)
    (hclosed : ∀ l ∈ ls, brings partials l ⊆ ls) (h : Reachable partials ns l) : l ∈ ls := by
  induction h with
  | own h => exact hown h
  | included _ hsource hparse hl ih =>
    refine hclosed _ ih ?_
    simpa only [brings, hsource, hparse] using hl

/-- The lexemes of a source, as they are computed. -/
theorem lexemes_of_parsed {file : Option Text} {source : Text} {u : Template} {ls : List Lexeme}
    (h : Template.parse file source = .ok u)
    (hls : (Template.parse file source).toOption.map (fun u => lexemes u.nodes) = some ls) :
    lexemes u.nodes = ls := by
  rw [h] at hls
  exact Option.some.inj hls

/-- A node asks for nothing but what the tree asks for that it stands in. -/
theorem lexemes_subset {n : Node} (h : n ∈ ns) : lexemes [n] ⊆ lexemes ns := by
  obtain ⟨before, after, rfl⟩ := List.append_of_mem h
  intro l hl
  rw [lexemes_append]
  refine List.mem_append_right _ ?_
  rw [← List.singleton_append, lexemes_append]
  exact List.mem_append_left _ hl

/-- Partials that are included one from the other, the first one from the tree: each is registered,
not empty and well-formed. -/
inductive InclusionChain (partials : Partials) : List Node → List Text → Prop
  | nil {ns : List Node} : InclusionChain partials ns []
  | cons {ns : List Node} {name source : Text} {u : Template} {names : List Text}
    (hname : .leaf (.inclusion name) ∈ lexemes ns) (hsource : partials.get? name = some source)
    (hne : source ≠ []) (hparse : Template.parse (some name) source = .ok u)
    (hnames : InclusionChain partials u.nodes names) : InclusionChain partials ns (name :: names)

/-- A tree that asks for more has all chains of one that asks for less. -/
theorem InclusionChain.of_subset (h : InclusionChain partials ms names)
    (hsub : lexemes ms ⊆ lexemes ns) : InclusionChain partials ns names := by
  cases h with
  | nil => exact .nil
  | cons hname hsource hne hparse hnames => exact .cons (hsub hname) hsource hne hparse hnames

end Node
end Stencil
