import Stencil.Proofs.Render.Walk
import Stencil.Proofs.Scope.Flatten
import Stencil.Proofs.Template.Scan
/-! What a render depends on: of its values and partials, those that are mentioned in what it can
reach. -/
namespace Stencil

open Node (Reachable)

/-- The names that reachable paths start with. -/
def Node.Asked (partials : Partials) (ns : List Node) (key : Text) : Prop :=
  ∃ l path rest, Reachable partials ns l ∧ l.path? = some path ∧ path.splitOn '.' = key :: rest

/-- Two registries and two mappings that agree on all that is reachable from a tree, where no path
asks for the scope around a loop. -/
structure Node.AgreeOn (ns : List Node) (partials partials' : Partials) (m m' : Mapping Datum) :
    Prop where
  paths : ∀ l path, Reachable partials ns l → l.path? = some path →
    Loop.parentKey ∉ path.splitOn '.'
  sources : ∀ name, Reachable partials ns (.leaf (.inclusion name)) →
    partials.get? name = partials'.get? name
  values : ∀ key, Node.Asked partials ns key → m.get? key = m'.get? key

/-- Scopes that have the same values for some names. -/
def Scope.AgreeOn (keys : Text → Prop) (s t : Scope) : Prop :=
  ∀ key, keys key → s.lookup key = t.lookup key

namespace Scope.AgreeOn

variable {keys : Text → Prop} {s t : Scope} {path : Text}

theorem resolve (h : s.AgreeOn keys t)
    (hpath : ∀ first rest, path.splitOn '.' = first :: rest → keys first) :
    s.resolve path = t.resolve path :=
  resolve_congr_first fun first rest hsplit => h first (hpath first rest hsplit)

/-- A loop over the same elements keeps what its body can ask for: a name that a pass does not
define falls through to the scopes around both. -/
theorem child (h : s.AgreeOn keys t) (hkeys : ∀ key, keys key → key ≠ Loop.parentKey) (item : Datum)
    (index length : Int) : (s.child item index length).AgreeOn keys (t.child item index length) :=
  fun key hkey => lookup_child_congr (h key hkey) (hkeys key hkey) item index length

end Scope.AgreeOn

namespace Render

variable {partials partials' : Partials} {m m' : Mapping Datum} {ns : List Node}

/-- Where no path asks for the scope around a loop, scopes that agree on what is asked for do the
same. -/
theorem simulation_agreeOn (settings : Settings)
    (hpaths : ∀ l path, Reachable partials ns l → l.path? = some path →
      Loop.parentKey ∉ path.splitOn '.') :
    Walk.Simulation Scope.child Scope.child settings (Reachable partials ns)
      (Scope.AgreeOn (Node.Asked partials ns)) Eq := by
  have hkeys : ∀ key, Node.Asked partials ns key → key ≠ Loop.parentKey := by
    rintro key ⟨l, path, rest, hl, hpath, hsplit⟩ rfl
    exact hpaths l path hl hpath (hsplit ▸ List.mem_cons_self)
  have hresolve : ∀ {s t : Scope} {l : Lexeme} {path : Text}, Reachable partials ns l →
      l.path? = some path → s.AgreeOn (Node.Asked partials ns) t →
      s.resolve path = t.resolve path :=
    fun hl hpath h => h.resolve fun first rest hsplit => ⟨_, _, rest, hl, hpath, hsplit⟩
  refine ⟨Trace.compatible_eq, fun _ => rfl, ?_, ?_, ?_⟩
  · intro s t l location i j hl h hi
    exact leaf_related (fun _ => rfl) (fun path hpath => hresolve hl hpath h) hi
  · intro s t path hl h
    rw [hresolve hl rfl h]
    cases (t.resolve path).items? with
    | none => exact .none
    | some items => exact .some (Walk.forall₂_passes fun item _ k => h.child hkeys item k items.length)
  · intro s t path hl h
    rw [hresolve hl rfl h]

theorem run_eq_of_agreeOn (settings : Settings) (h : Node.AgreeOn ns partials partials' m m') :
    run settings partials ns (.root m) = run settings partials' ns (.root m') := by
  have hroot : (Scope.root m).AgreeOn (Node.Asked partials ns) (.root m') := by
    intro key hkey
    rw [Scope.lookup_root, Scope.lookup_root, h.values key hkey]
  exact Walk.run_related (simulation_agreeOn settings h.paths) h.sources hroot

/-- A render depends on nothing but what its lexemes mention. Two registries and two mappings that
agree on the partials and names which are reachable from a template, or from the one that a source
spells, give the same outcome. -/
theorem outcome_eq_of_agreeOn (settings : Settings) (partials partials' : Partials)
    (m m' : Mapping Datum) :
    (∀ t : Template, Node.AgreeOn t.nodes partials partials' m m' →
      t.render settings partials (.mapping m) = t.render settings partials' (.mapping m')) ∧
    ∀ file source,
      (∀ t, Template.parse file source = .ok t → Node.AgreeOn t.nodes partials partials' m m') →
      renderSource settings partials file source (.mapping m) =
        renderSource settings partials' file source (.mapping m') := by
  have hrender : ∀ t : Template, Node.AgreeOn t.nodes partials partials' m m' →
      t.render settings partials (.mapping m) = t.render settings partials' (.mapping m') :=
    fun t h => congrArg (Outcome.ofTrace settings) (run_eq_of_agreeOn settings h)
  refine ⟨hrender, fun file source h => ?_⟩
  cases hparse : Template.parse file source with
  | error e => simp only [renderSource, hparse]
  | ok t =>
    simp only [renderSource, hparse]
    exact hrender t (h t hparse)

/-- A loop over `xs` that writes `n` and includes the partial `p`. -/
def mentioningSource : Text :=
  tagOf "#each xs" ++ tagOf "n" ++ tagOf "> p" ++ tagOf "/each"

/-- Partials of which `p` alone is mentioned; it asks for the element and for `k`. -/
def mentionedPartials (unmentioned : Text) : Partials :=
  ⟨[("q", unmentioned), ("p", tagOf "_value" ++ tagOf "k")]⟩

/-- Values of which `n` and `xs` alone are mentioned; there is no `k`. -/
def mentionedValues (unmentioned : Datum) : Mapping Datum :=
  ⟨[("u", unmentioned), ("n", .int 7), ("xs", .list [.int 1, .mapping ⟨[("n", .int 8)]⟩])]⟩

/-- What can be reached from that loop. -/
def mentionedLexemes : List Lexeme :=
  [.eachOpen "xs", .leaf (.value "n"), .leaf (.inclusion "p"), .eachClose, .leaf (.value "_value"),
    .leaf (.value "k")]

theorem outcome_eq_of_agreeOn_mentioned :
    (renderSource .default (mentionedPartials "a") none mentioningSource
        (.mapping (mentionedValues (.str "a")))).result.toOption = some ⟨"718", []⟩ ∧
      renderSource .default (mentionedPartials "a") none mentioningSource
          (.mapping (mentionedValues (.str "a"))) =
        renderSource .default ⟨[("p", tagOf "_value" ++ tagOf "k")]⟩ none mentioningSource
          (.mapping (mentionedValues .null)) := by
  refine ⟨by decide +kernel, ?_⟩
  refine (outcome_eq_of_agreeOn .default _ _ _ _).2 none mentioningSource fun t ht => ?_
  have hlexemes : Node.lexemes t.nodes = ([.eachOpen "xs", .leaf (.value "n"),
      .leaf (.inclusion "p"), .eachClose] : List Lexeme) :=
    Node.lexemes_of_parsed ht (by decide +kernel)
  have hreach : ∀ {l}, Reachable (mentionedPartials "a") t.nodes l → l ∈ mentionedLexemes :=
    fun h => h.mem_of_closed (by rw [hlexemes]; decide) (by decide +kernel)
  refine ⟨?_, ?_, ?_⟩
  · intro l path hl hpath
    have hpaths : ∀ l ∈ mentionedLexemes, ∀ path ∈ l.path?,
        Loop.parentKey ∉ path.splitOn '.' := by decide
    exact hpaths l (hreach hl) path hpath
  · intro name hname
    have hp : name = "p" := by simpa [mentionedLexemes] using hreach hname
    rw [hp]
    decide
  · rintro key ⟨l, path, rest, hl, hpath, hsplit⟩
    have hkeys : ∀ l ∈ mentionedLexemes, ∀ path ∈ l.path?,
        (path.splitOn '.').headD [] ≠ "u" := by decide
    have hkey : key ≠ [↑ 'u'] := by simpa [hsplit] using hkeys l (hreach hl) path hpath
    simp [mentionedValues, Mapping.get?, Mapping.find?, Ne.symm hkey]

end Render
end Stencil
