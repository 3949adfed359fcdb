import Stencil.Proofs.Render.Steps
import Stencil.Proofs.Template.Reachable
/-! Renders end, and data of documents are never why one fails. What can be said of a tree and the
partials by themselves bounds how deep the inclusions of an execution nest. -/
namespace Stencil

open Node (lexemes Reachable InclusionChain)

theorem Settings.room_of_int {settings : Settings} {limit : Int}
    (h : settings.inclusionLimit = .int limit) : settings.room = limit.toNat := by
  rw [Settings.room, Settings.limit, h]
  rfl

theorem Render.noRoom_of_int {settings : Settings} {limit : Int}
    (h : settings.inclusionLimit = .int limit) (name : Text) (location : Location) :
    noRoom settings name location = .tooDeep name location (.int limit) :=
  noRoom_of_limit (by rw [Settings.limit, h]) rfl name location

namespace Task

variable {settings : Settings} {partials : Partials} {t u : Task} {ns : List Node}

/-- What a task calls for asks for nothing new, or it is what an inclusion asks for and stands one
level further down. -/
theorem Calls.lexemes_cases (h : Calls settings partials t u) :
    (u.visit.depth = t.visit.depth ∧ lexemes [u.visit.node] ⊆ lexemes [t.visit.node]) ∨
      ∃ name source v, .leaf (.inclusion name) ∈ lexemes [t.visit.node] ∧
        partials.get? name = some source ∧ source ≠ [] ∧
        Template.parse (some name) source = .ok v ∧ u.visit.depth = t.visit.depth + 1 ∧
        lexemes [u.visit.node] ⊆ lexemes v.nodes := by
  cases h with
  | included hsource hne _ hparse hn =>
    exact .inr ⟨_, _, _, List.mem_cons_self, hsource, hne, hparse, rfl, Node.lexemes_subset hn⟩
  | looped _ _ hn =>
    refine .inl ⟨rfl, fun l hl => ?_⟩
    have hbody := Node.lexemes_subset hn hl
    simp [hbody]
  | @chosen _ _ path body elseBody s n hn =>
    refine .inl ⟨rfl, fun l hl => ?_⟩
    cases elseBody with
    | none =>
      split at hn
      · have hbody := Node.lexemes_subset hn hl
        simp [hbody]
      · cases hn
    | some elseBody =>
      split at hn
      · have hbody := Node.lexemes_subset hn hl
        simp [hbody]
      · have helse : l ∈ lexemes elseBody := Node.lexemes_subset hn hl
        simp [helse]

/-- Where a task stands below a tree: all that it asks for is reachable from the tree, and as many
partials as there are inclusions around it lead to it, so that every chain from its node continues
one from the tree. -/
structure Below (partials : Partials) (ns : List Node) (t : Task) : Prop where
  reachable : ∀ l ∈ lexemes [t.visit.node], Reachable partials ns l
  chain : ∃ around : List Text, around.length = t.visit.depth ∧
    ∀ names, InclusionChain partials [t.visit.node] names →
      InclusionChain partials ns (around ++ names)

theorem below_ofNodes {s : Scope} (h : t ∈ ofNodes 0 ns s) : Below partials ns t := by
  obtain ⟨n, hn, rfl⟩ := mem_ofNodes h
  exact ⟨fun l hl => .own (Node.lexemes_subset hn hl),
    [], rfl, fun names hnames => hnames.of_subset (Node.lexemes_subset hn)⟩

/-- No step leaves the tree. An inclusion adds its partial to those that lead there. -/
theorem Below.calls (h : Below partials ns t) (hcalls : Calls settings partials t u) :
    Below partials ns u := by
  obtain ⟨around, hlength, hchain⟩ := h.chain
  rcases hcalls.lexemes_cases with ⟨hdepth, hsub⟩ | hincluded
  · refine ⟨fun l hl => h.reachable l (hsub hl), around, by omega, ?_⟩
    intro names hnames
    exact hchain names (hnames.of_subset hsub)
  · obtain ⟨name, source, v, hname, hsource, hne, hparse, hdepth, hsub⟩ := hincluded
    refine ⟨fun l hl => .included (h.reachable _ hname) hsource hparse (hsub hl),
      around ++ [name], ?_, ?_⟩
    · rw [List.length_append, List.length_singleton, hlength, hdepth]
    · intro names hnames
      have hnext : InclusionChain partials v.nodes names := hnames.of_subset hsub
      have hall := hchain (name :: names) (.cons hname hsource hne hparse hnext)
      rwa [List.append_assoc, List.singleton_append]

/-- Where all that is reachable is well-formed and no chain is longer than the limit, no inclusion
is refused. -/
theorem Below.not_refused {limit : Int} {name : Text} {location : Location} {f : RenderFailure}
    (h : Below partials ns t) (hlimit : settings.inclusionLimit = .int limit)
    (hparses : ∀ name source, Reachable partials ns (.leaf (.inclusion name)) →
      partials.get? name = some source → ∃ u, Template.parse (some name) source = .ok u)
    (hchains : ∀ names, names ≠ [] → InclusionChain partials ns names → names.length ≤ limit)
    (hnode : t.visit.node = .leaf location (.inclusion name)) :
    ¬ Refused settings partials t.visit.depth name location f := by
  have hname : .leaf (.inclusion name) ∈ lexemes [t.visit.node] := by
    rw [hnode]
    exact List.mem_cons_self
  intro hrefused
  cases hrefused with
  | noRoom hsource hne hroom =>
    -- The partials that lead here and the refused one are a chain that is one longer than the limit.
    obtain ⟨u, hparse⟩ := hparses name _ (h.reachable _ hname) hsource
    obtain ⟨around, hlength, hchain⟩ := h.chain
    have hlong : InclusionChain partials ns (around ++ [name]) :=
      hchain [name] (.cons hname hsource hne hparse .nil)
    have hle := hchains _ (by simp) hlong
    rw [List.length_append, List.length_singleton, hlength] at hle
    rw [Settings.room_of_int hlimit] at hroom
    omega
  | malformed hsource _ hparse =>
    obtain ⟨u, hu⟩ := hparses name _ (h.reachable _ hname) hsource
    rw [hu] at hparse
    cases hparse

end Task

namespace Render

variable {settings : Settings} {partials : Partials} {limit : Int} {ns : List Node} {s : Scope}
  {e : Execution} {f : RenderFailure}

/-- On data of documents and under a limit that inclusions can reach, an execution fails in two ways
alone: a partial is not well-formed, or it is included too deep. -/
theorem malformed_or_tooDeep_of_executes {limit : Limit} (husable : settings.Usable)
    (hlimit : settings.limit = .ok limit) (hroom : limit.room?.isSome) (hs : s.JsonLike)
    (h : Executes settings partials (Task.ofNodes 0 ns s) e) (hf : e.trace.failure = some f) :
    (∃ e, f = .malformed e) ∨ ∃ name location, f = .tooDeep name location limit := by
  refine h.failure (I := fun t => t.scope.JsonLike)
    (P := fun f => (∃ e, f = .malformed e) ∨ ∃ name location, f = .tooDeep name location limit)
    ?_ ?_ ?_ f hf
  · intro t ht f hf
    obtain ⟨location, name, -, hrefused⟩ := Task.refused_of_step husable ht hf
    cases hrefused with
    | noRoom => exact .inr ⟨name, location, noRoom_of_limit hlimit hroom name location⟩
    | malformed => exact .inl ⟨_, rfl⟩
  · intro t ht u hu
    exact (Task.calls_of_step hu).jsonLike ht
  · intro t ht
    obtain ⟨n, -, rfl⟩ := Task.mem_ofNodes ht
    exact hs

theorem failure_of_executes (husable : settings.Usable)
    (hlimit : settings.inclusionLimit = .int limit) (hs : s.JsonLike)
    (h : Executes settings partials (Task.ofNodes 0 ns s) e) (hf : e.trace.failure = some f) :
    (∃ e, f = .malformed e) ∨ ∃ name location, f = .tooDeep name location (.int limit) :=
  malformed_or_tooDeep_of_executes husable (by rw [Settings.limit, hlimit]) rfl hs h hf

/-- It does not fail at all where everything reachable is well-formed and no chain of inclusions is
longer than the limit. -/
theorem failure_eq_none_of_executes (husable : settings.Usable)
    (hlimit : settings.inclusionLimit = .int limit) (hs : s.JsonLike)
    (hparses : ∀ name source, Reachable partials ns (.leaf (.inclusion name)) →
      partials.get? name = some source → ∃ u, Template.parse (some name) source = .ok u)
    (hchains : ∀ names, names ≠ [] → InclusionChain partials ns names → names.length ≤ limit)
    (h : Executes settings partials (Task.ofNodes 0 ns s) e) : e.trace.failure = none := by
  have hnever : ∀ f, e.trace.failure = some f → False := by
    refine h.failure (I := fun t => t.scope.JsonLike ∧ Task.Below partials ns t) ?_ ?_ ?_
    · rintro t ⟨ht, hbelow⟩ f hf
      obtain ⟨location, name, hnode, hrefused⟩ := Task.refused_of_step husable ht hf
      exact hbelow.not_refused hlimit hparses hchains hnode hrefused
    · rintro t ⟨ht, hbelow⟩ u hu
      have hcalls := Task.calls_of_step hu
      exact ⟨hcalls.jsonLike ht, hbelow.calls hcalls⟩
    · intro t ht
      have hbelow : Task.Below partials ns t := Task.below_ofNodes ht
      obtain ⟨n, -, rfl⟩ := Task.mem_ofNodes ht
      exact ⟨hs, hbelow⟩
  exact Option.eq_none_iff_forall_ne_some.2 hnever

/-- A loop that includes a partial for each element, and another one that is not registered. -/
def rowsSource : Text :=
  tagOf "#each xs" ++ tagOf "> row" ++ tagOf "> gone" ++ tagOf "/each"

def rowPartial : Partials := ⟨[("row", tagOf "_value")]⟩

theorem lexemes_row {u : Template} (h : Template.parse (some "row") (tagOf "_value") = .ok u) :
    lexemes u.nodes = ([.leaf (.value "_value")] : List Lexeme) :=
  Node.lexemes_of_parsed h (by decide +kernel)

end Render
end Stencil
