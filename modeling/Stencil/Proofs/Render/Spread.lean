import Stencil.Proofs.Render.Walk
import Stencil.Proofs.Scope.Flatten
import Stencil.Proofs.Template.Scan
/-! Layers and one spread mapping: where no path asks for the scope around a loop, a render cannot
tell them apart. -/
namespace Stencil

/-- The scope of a loop's body in one layer: the names of the scope around it and those of the pass
in one mapping. -/
def Scope.spreadChild (s : Scope) (item : Datum) (index length : Int) : Scope :=
  root (s.child item index length).flatten

/-- The render of a template in spread scopes. -/
def Template.renderSpread (t : Template) (settings : Settings) (partials : Partials)
    (context : Datum) : Outcome :=
  .ofTrace settings
    (Walk.run Scope.spreadChild settings partials t.nodes (.root (Scope.ofDatum context).flatten))

namespace Scope

variable {s t : Scope} {item : Datum} {items : List Datum} {path key : Text}

/-- What layers and their spread mapping share through all loops: each name but that of the
enclosing scope has the same value in both. -/
structure SpreadTo (s t : Scope) : Prop where
  lookup : ∀ key, key ≠ Loop.parentKey → s.lookup key = t.lookup key
  jsonLike : s.JsonLike
  regular : t.Regular

theorem spreadTo_root (h : s.JsonLike) : s.SpreadTo (root s.flatten) := by
  refine ⟨?_, h, regular_root s.distinct_flatten⟩
  intro key hkey
  rw [lookup_root, get?_flatten h.regular hkey]

theorem SpreadTo.child (h : s.SpreadTo t) (hitem : item.JsonLike) (index length : Int) :
    (s.child item index length).SpreadTo (t.spreadChild item index length) := by
  refine ⟨?_, h.jsonLike.child hitem index length, regular_root (distinct_flatten _)⟩
  intro key hkey
  have hregular : (t.child item index length).Regular := h.regular.child hitem index length
  rw [spreadChild, lookup_root, get?_flatten hregular hkey]
  exact lookup_child_congr (h.lookup key hkey) hkey item index length

theorem SpreadTo.resolve (h : s.SpreadTo t) (hpath : Loop.parentKey ∉ path.splitOn '.') :
    s.resolve path = t.resolve path := resolve_congr h.lookup hpath

theorem SpreadTo.passes (h : s.SpreadTo t) (hitems : ∀ item ∈ items, item.JsonLike) :
    List.Forall₂ SpreadTo (Walk.passes Scope.child s items)
      (Walk.passes Scope.spreadChild t items) :=
  Walk.forall₂_passes fun item hitem k => h.child (hitems item hitem) k items.length

end Scope

namespace Render

variable {partials : Partials} {ns : List Node}

/-- Layers and their spread mapping do the same, since no lexeme asks for more than values. -/
theorem simulation_spread (settings : Settings)
    (hpaths : ∀ l, Node.Reachable partials ns l →
      ∀ path ∈ l.path?, Loop.parentKey ∉ path.splitOn '.') :
    Walk.Simulation Scope.child Scope.spreadChild settings (Node.Reachable partials ns)
      Scope.SpreadTo Eq where
  compatible := Trace.compatible_eq
  refl := fun _ => rfl
  leaf := fun hl h hi =>
    leaf_related (fun _ => rfl) (fun path hpath => h.resolve (hpaths _ hl path hpath)) hi
  passes := by
    intro s t path hl h
    have hpath : Loop.parentKey ∉ path.splitOn '.' := hpaths _ hl path rfl
    rw [← h.resolve hpath]
    cases hitems : (s.resolve path).items? with
    | none => exact .none
    | some items =>
      refine .some (h.passes ?_)
      rcases h.jsonLike.resolve hpath with habsent | hvalue
      · rw [habsent] at hitems
        cases hitems
      · exact hvalue.of_items? hitems
  isTruthy := fun hl h => by rw [h.resolve (hpaths _ hl _ rfl)]

/-- A render that looks names up in layers has the same outcome as the one in which every loop
spreads all names of its body in one mapping, if no path that it can reach asks for the scope around
a loop. -/
theorem render_eq_renderSpread (t : Template) (settings : Settings) (partials : Partials)
    (context : Datum) (hcontext : (Scope.ofDatum context).JsonLike)
    (hpaths : ∀ l, Node.Reachable partials t.nodes l →
      ∀ path ∈ l.path?, Loop.parentKey ∉ path.splitOn '.') :
    t.render settings partials context = t.renderSpread settings partials context := by
  have hrun : Render.run settings partials t.nodes (Scope.ofDatum context) =
      Walk.run Scope.spreadChild settings partials t.nodes (.root (Scope.ofDatum context).flatten) :=
    Walk.run_related (simulation_spread settings hpaths) (fun _ _ => rfl)
      (Scope.spreadTo_root hcontext)
  exact congrArg (Outcome.ofTrace settings) hrun

/-- A loop over `xs` that writes `n` and includes the partial `p`. -/
def loopOfNames : Template :=
  ⟨none, .unknown, [.each .unknown "xs"
    [.leaf .unknown (.value "n"), .leaf .unknown (.inclusion "p")]]⟩

/-- A partial that writes what the pass defines. -/
def passPartial : Partials := ⟨[("p", tagOf "_value" ++ tagOf "_index")]⟩

/-- Names of a scope around a loop, one of which an element has as well. -/
def hiddenName : Datum :=
  .mapping ⟨[("n", .int 7), ("xs", .list [.int 1, .mapping ⟨[("n", .int 8)]⟩])]⟩

theorem reachable_loopOfNames {l : Lexeme} (h : Node.Reachable passPartial loopOfNames.nodes l) :
    l ∈ ([.eachOpen "xs", .leaf (.value "n"), .leaf (.inclusion "p"), .eachClose,
      .leaf (.value "_value"), .leaf (.value "_index")] : List Lexeme) :=
  h.mem_of_closed (by decide) (by decide +kernel)

theorem renderSpread_hiddenName :
    (loopOfNames.renderSpread .default passPartial hiddenName).result.toOption =
      some ⟨"71081", []⟩ := by
  have hitem : (Datum.mapping ⟨[("n", .int 8)]⟩).JsonLike :=
    .mapping (by decide) (List.forall_mem_singleton.2 (.int 8))
  have hitems : (Datum.list [.int 1, .mapping ⟨[("n", .int 8)]⟩]).JsonLike :=
    .list (List.forall_mem_cons.2 ⟨.int 1, List.forall_mem_singleton.2 hitem⟩)
  have hcontext : (Scope.ofDatum hiddenName).JsonLike :=
    Scope.jsonLike_ofDatum (.mapping (by decide)
      (List.forall_mem_cons.2 ⟨.int 7, List.forall_mem_singleton.2 hitems⟩))
  rw [← render_eq_renderSpread loopOfNames .default passPartial hiddenName hcontext]
  · decide +kernel
  · intro l hl
    have hpaths : ∀ l ∈ ([.eachOpen "xs", .leaf (.value "n"), .leaf (.inclusion "p"), .eachClose,
      .leaf (.value "_value"), .leaf (.value "_index")] : List Lexeme), ∀ path ∈ l.path?,
        Loop.parentKey ∉ path.splitOn '.' := by decide
    exact hpaths l (reachable_loopOfNames hl)

end Render
end Stencil
