import Stencil.Proofs.Render.Room
import Stencil.Proofs.Template.Reachable
/-! Renders in which loops open the scopes of their bodies in any way, and when two of them go
alike. -/
namespace Stencil

/-- What is made of the same elements is related one by one. -/
theorem forall₂_mapIdx {α β γ : Type} {R : β → γ → Prop} {f : Nat → α → β} {g : Nat → α → γ}
    {xs : List α} (h : ∀ k, ∀ x ∈ xs, R (f k x) (g k x)) :
    List.Forall₂ R (xs.mapIdx f) (xs.mapIdx g) := by
  rw [List.forall₂_iff_get]
  refine ⟨by simp, ?_⟩
  intro k hk hk'
  have hlt : k < xs.length := by simpa using hk
  simpa using h k xs[k] (List.getElem_mem hlt)

namespace Walk

variable {opening opening' : Opening} {settings : Settings} {i j : Inclusion} {location : Location}
  {path : Text} {body elseBody ns : List Node} {s s' : Scope} {partials partials' : Partials}
  {P : Lexeme → Prop} {S : Scope → Scope → Prop} {R : Trace → Trace → Prop}

/-- Passes over the same elements are related one by one. -/
theorem forall₂_passes {items : List Datum}
    (h : ∀ item ∈ items, ∀ k : Nat,
      S (opening s item k items.length) (opening' s' item k items.length)) :
    List.Forall₂ S (passes opening s items) (passes opening' s' items) :=
  forall₂_mapIdx fun k item hitem => h item hitem k

/-- What scopes in `S` must have in common so that walks over lexemes in `P` are in `R`: their
leaves are in `R`, their loops make passes in `S`, and their conditions are decided alike. -/
structure Simulation (opening opening' : Opening) (settings : Settings) (P : Lexeme → Prop)
    (S : Scope → Scope → Prop) (R : Trace → Trace → Prop) : Prop where
  compatible : Trace.Compatible R
  refl : ∀ a, R a a
  leaf : ∀ {s s' l location i j}, P (.leaf l) → S s s' →
    (∀ name, l = .inclusion name → R (i s name location) (j s' name location)) →
    R (Render.leaf settings i s location l) (Render.leaf settings j s' location l)
  passes : ∀ {s s' path}, P (.eachOpen path) → S s s' →
    Option.Rel (List.Forall₂ S) ((s.resolve path).items?.map (passes opening s))
      ((s'.resolve path).items?.map (passes opening' s'))
  isTruthy : ∀ {s s' path}, P (.ifOpen path) → S s s' →
    (s.resolve path).isTruthy = (s'.resolve path).isTruthy

/-- Walks through the same nodes stay related: every pass of a loop starts again in scopes in `S`, and
how inclusions run is left to `hi`. -/
theorem nodes_related (sim : Simulation opening opening' settings P S R)
    (hi : ∀ {s s'} name location, P (.leaf (.inclusion name)) → S s s' →
      R (i s name location) (j s' name location))
    (hP : ∀ l ∈ Node.lexemes ns, P l) (h : S s s') :
    R (nodes opening settings i ns s) (nodes opening' settings j ns s') := by
  induction ns using Node.forest_induction generalizing s s' with
  | nil => exact sim.compatible.empty
  | leaf location l ns ih =>
    have hl : P (.leaf l) := hP _ (by simp)
    refine sim.compatible.append (sim.leaf hl h ?_) (ih (fun l hl => hP l (by simp [hl])) h)
    rintro name rfl
    exact hi name location hl h
  | each location path body ns ihb ih =>
    rw [nodes_each, nodes_each]
    refine sim.compatible.append ?_ (ih (fun l hl => hP l (by simp [hl])) h)
    have hbody : ∀ l ∈ Node.lexemes body, P l := fun l hl => hP l (by simp [hl])
    have hpasses := sim.passes (hP (.eachOpen path) (by simp)) h
    cases hs : (s.resolve path).items? with
    | none =>
      cases hs' : (s'.resolve path).items? with
      | none => exact sim.refl _
      | some items' =>
        rw [hs, hs'] at hpasses
        cases hpasses
    | some items =>
      cases hs' : (s'.resolve path).items? with
      | none =>
        rw [hs, hs'] at hpasses
        cases hpasses
      | some items' =>
        rw [hs, hs'] at hpasses
        cases hpasses with
        | some hinner => exact sim.compatible.concat (hinner.imp fun _ _ => ihb hbody)
  | cond location path body ns ihb ih =>
    rw [nodes_cond, nodes_cond, sim.isTruthy (hP (.ifOpen path) (by simp)) h]
    refine sim.compatible.append ?_ (ih (fun l hl => hP l (by simp [hl])) h)
    split
    · exact ihb (fun l hl => hP l (by simp [hl])) h
    · exact sim.refl _
  | condElse location path body elseBody ns ihb ihe ih =>
    rw [nodes_condElse, nodes_condElse, sim.isTruthy (hP (.ifOpen path) (by simp)) h]
    refine sim.compatible.append ?_ (ih (fun l hl => hP l (by simp [hl])) h)
    split
    · exact ihb (fun l hl => hP l (by simp [hl])) h
    · exact ihe (fun l hl => hP l (by simp [hl])) h

/-- An inclusion stays among the lexemes that can be reached, so that the walks through the included
nodes are related again, with a level less of room. -/
theorem included_related
    (sim : Simulation opening opening' settings (Node.Reachable partials ns) S R)
    (hpartials : ∀ name, Node.Reachable partials ns (.leaf (.inclusion name)) →
      partials.get? name = partials'.get? name)
    (room : Nat) {name : Text} (location : Location)
    (hname : Node.Reachable partials ns (.leaf (.inclusion name))) (h : S s s') :
    R (included opening settings partials room s name location)
      (included opening' settings partials' room s' name location) := by
  induction room generalizing s s' name location with
  | zero =>
    rw [included, included, ← hpartials name hname]
    exact sim.refl _
  | succ room ih =>
    rw [included, included, ← hpartials name hname]
    cases hsource : partials.get? name with
    | none => exact sim.refl _
    | some source =>
      cases source with
      | nil => exact sim.refl _
      | cons c source =>
        simp only
        cases hparse : Template.parse (some name) (c :: source) with
        | error e => exact sim.refl _
        | ok u =>
          exact nodes_related sim (fun name location hname h => ih location hname h)
            (fun l hl => .included hname hsource hparse hl) h

/-- Walks are related from scopes in `S` if the registries agree on all that can be included. -/
theorem run_related (sim : Simulation opening opening' settings (Node.Reachable partials ns) S R)
    (hpartials : ∀ name, Node.Reachable partials ns (.leaf (.inclusion name)) →
      partials.get? name = partials'.get? name) (h : S s s') :
    R (run opening settings partials ns s) (run opening' settings partials' ns s') :=
  nodes_related sim
    (fun _ location hname h => included_related sim hpartials settings.room location hname h)
    (fun _ hl => .own hl) h

end Walk
end Stencil
