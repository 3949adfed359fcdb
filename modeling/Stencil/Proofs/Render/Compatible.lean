import Mathlib.Data.List.Forall2
import Stencil.Outcome
import Stencil.Proofs.Template.Forest
/-! Relations between courses that respect their order, and renders of two trees that such a
relation joins as soon as it joins their leaves. -/
namespace Stencil

namespace Trace

variable {R : Trace → Trace → Prop} {a b c d : Trace}

/-- A relation that holds between courses one after the other if it holds between the parts. -/
structure Compatible (R : Trace → Trace → Prop) : Prop where
  empty : R .empty .empty
  append {a b c d : Trace} : R a b → R c d → R (a ++ c) (b ++ d)

theorem Compatible.concat (hR : Compatible R) {α β : Type} {f : α → Trace} {g : β → Trace}
    {xs : List α} {ys : List β} (h : List.Forall₂ (fun x y => R (f x) (g y)) xs ys) :
    R (concat (xs.map f)) (concat (ys.map g)) := by
  induction h with
  | nil => exact hR.empty
  | cons h _ ih => exact hR.append h ih

theorem compatible_eq : Compatible Eq := ⟨rfl, fun h k => by rw [h, k]⟩

theorem failure_append_of_none (h : a.failure = none) (b : Trace) :
    (a ++ b).failure = b.failure := by
  rw [append_of_none h]

/-- Two courses one after the other fail as the first one that does. -/
theorem failure_append (a b : Trace) : (a ++ b).failure = a.failure.or b.failure := by
  cases ha : a.failure with
  | some f => simp [append_of_failure, ha]
  | none => simp [append_of_none, ha]

/-- A course ends well if each part of it does. -/
theorem failure_append_eq_none_iff :
    (a ++ b).failure = none ↔ a.failure = none ∧ b.failure = none := by
  cases ha : a.failure with
  | some f => simp [append_of_failure, ha]
  | none => simp [append_of_none, ha]

/-- A relation between courses that both fail or both succeed is compatible if two successes pass it
on to what they have done together with what follows, since nothing follows a failure. -/
theorem Compatible.of_events (hempty : R .empty .empty)
    (hsome : ∀ {a b}, R a b → a.failure.isSome = b.failure.isSome)
    (hevents : ∀ {a b c d}, R a b → R c d →
      R ⟨a.events ++ c.events, c.failure⟩ ⟨b.events ++ d.events, d.failure⟩) : Compatible R := by
  refine ⟨hempty, ?_⟩
  intro a b c d hab hcd
  have hsome := hsome hab
  cases ha : a.failure with
  | some f =>
    rw [ha, Option.isSome_some] at hsome
    rwa [append_of_failure (by simp [ha]), append_of_failure hsome.symm]
  | none =>
    have hb : b.failure = none := by simpa [ha] using hsome.symm
    rw [append_of_none ha, append_of_none hb]
    exact hevents hab hcd

/-- Courses that write the same and show the same of their warnings and of what ended them: `seen`
says what is shown of a warning, and `why` what of a failure. -/
structure Alike {α β : Type} (seen : Warning → α) (why : RenderFailure → β) (a b : Trace) :
    Prop where
  output : a.output = b.output
  warnings : a.warnings.map seen = b.warnings.map seen
  failure : a.failure.map why = b.failure.map why

section Alike

variable {α β : Type} {seen : Warning → α} {why : RenderFailure → β}

theorem Alike.refl (a : Trace) : Alike seen why a a := ⟨rfl, rfl, rfl⟩

theorem Alike.symm (h : Alike seen why a b) : Alike seen why b a :=
  ⟨h.output.symm, h.warnings.symm, h.failure.symm⟩

theorem Alike.trans (h : Alike seen why a b) (k : Alike seen why b c) : Alike seen why a c :=
  ⟨h.output.trans k.output, h.warnings.trans k.warnings, h.failure.trans k.failure⟩

theorem Alike.isSome (h : Alike seen why a b) : a.failure.isSome = b.failure.isSome := by
  simpa using congrArg Option.isSome h.failure

theorem Alike.failure_eq_none_iff (h : Alike seen why a b) :
    a.failure = none ↔ b.failure = none := by
  rw [← Option.not_isSome_iff_eq_none, h.isSome, Option.not_isSome_iff_eq_none]

theorem compatible_alike : Compatible (Alike seen why) := by
  refine .of_events (.refl _) Alike.isSome ?_
  intro a b c d hab hcd
  refine ⟨?_, ?_, hcd.failure⟩
  · simpa [output] using congrArg₂ (· ++ ·) hab.output hcd.output
  · simpa [warnings] using congrArg₂ (· ++ ·) hab.warnings hcd.warnings

end Alike

/-- `R`, unless the first course ends with one of the failures in `P`. -/
def UpTo (P : RenderFailure → Prop) (R : Trace → Trace → Prop) (a b : Trace) : Prop :=
  (∃ f, a.failure = some f ∧ P f) ∨ R a b

/-- What goes on after the first course has ended cannot matter, so that a compatible relation stays
compatible when it is given up there. -/
theorem Compatible.upTo {P : RenderFailure → Prop} (hR : Compatible R)
    (hfail : ∀ {a b}, R a b → a.failure.isSome → b.failure.isSome) : Compatible (UpTo P R) := by
  refine ⟨.inr hR.empty, ?_⟩
  rintro a b c d (⟨f, ha, hf⟩ | hab) hcd
  · exact .inl ⟨f, by rwa [append_of_failure (by simp [ha])], hf⟩
  · cases ha : a.failure with
    | some f =>
      have hb := hfail hab (by simp [ha])
      exact .inr (by rwa [append_of_failure (by simp [ha]), append_of_failure hb])
    | none =>
      rcases hcd with ⟨f, hc, hf⟩ | hcd
      · exact .inl ⟨f, by rwa [failure_append_of_none ha], hf⟩
      · exact .inr (hR.append hab hcd)

end Trace

namespace Walk

variable {opening : Opening} {settings : Settings} {i : Inclusion} {location : Location}
  {path : Text} {body elseBody ns : List Node} {s : Scope}

theorem nodes_leaf {l : Leaf} :
    nodes opening settings i (.leaf location l :: ns) s =
      Render.leaf settings i s location l ++ nodes opening settings i ns s := rfl

theorem nodes_each :
    nodes opening settings i (.each location path body :: ns) s =
      (match (s.resolve path).items? with
        | none => .empty
        | some items =>
          .concat ((passes opening s items).map fun inner =>
            nodes opening settings i body inner)) ++
        nodes opening settings i ns s := rfl

theorem nodes_cond :
    nodes opening settings i (.cond location path body none :: ns) s =
      (if (s.resolve path).isTruthy then nodes opening settings i body s else .empty) ++
        nodes opening settings i ns s := rfl

theorem nodes_condElse :
    nodes opening settings i (.cond location path body (some elseBody) :: ns) s =
      (if (s.resolve path).isTruthy then nodes opening settings i body s
        else nodes opening settings i elseBody s) ++ nodes opening settings i ns s := rfl

end Walk

namespace Render

variable {settings settings' : Settings} {i j : Inclusion} {location : Location} {path : Text}
  {body elseBody ns : List Node} {s : Scope} {R : Trace → Trace → Prop}

theorem nodes_leaf {l : Leaf} :
    nodes settings i (.leaf location l :: ns) s =
      leaf settings i s location l ++ nodes settings i ns s := Walk.nodes_leaf

theorem nodes_single_leaf {l : Leaf} :
    nodes settings i [.leaf location l] s = leaf settings i s location l :=
  Trace.append_empty _

theorem nodes_each :
    nodes settings i (.each location path body :: ns) s =
      (match (s.resolve path).items? with
        | none => .empty
        | some items => .concat ((passes s items).map fun inner => nodes settings i body inner)) ++
        nodes settings i ns s := Walk.nodes_each

theorem nodes_cond :
    nodes settings i (.cond location path body none :: ns) s =
      (if (s.resolve path).isTruthy then nodes settings i body s else .empty) ++
        nodes settings i ns s := Walk.nodes_cond

theorem nodes_condElse :
    nodes settings i (.cond location path body (some elseBody) :: ns) s =
      (if (s.resolve path).isTruthy then nodes settings i body s
        else nodes settings i elseBody s) ++ nodes settings i ns s := Walk.nodes_condElse

/-- Renders of a tree and of the tree with its leaves replaced are related if each leaf is related
to what takes its place. The scope decides alone which passes and branches are run. -/
theorem nodes_replace {onLeaf : Location → Leaf → List Node} {onPlace : Location → Location}
    (hR : Trace.Compatible R)
    (hleaf : ∀ s location l,
      R (leaf settings i s location l) (nodes settings' j (onLeaf location l) s))
    (ns : List Node) (s : Scope) :
    R (nodes settings i ns s) (nodes settings' j (Node.replace onLeaf onPlace ns) s) := by
  induction ns using Node.forest_induction generalizing s with
  | nil => exact hR.empty
  | leaf location l ns ih =>
    rw [Node.replace_leaf, nodes_append, nodes_leaf]
    exact hR.append (hleaf s location l) (ih s)
  | each location path body ns ihb ih =>
    rw [Node.replace_each, nodes_each, nodes_each]
    refine hR.append ?_ (ih s)
    cases (s.resolve path).items? with
    | none => exact hR.empty
    | some items => exact hR.concat (List.forall₂_same.2 fun inner _ => ihb inner)
  | cond location path body ns ihb ih =>
    rw [Node.replace_cond, nodes_cond, nodes_cond]
    refine hR.append ?_ (ih s)
    split
    · exact ihb s
    · exact hR.empty
  | condElse location path body elseBody ns ihb ihe ih =>
    rw [Node.replace_condElse, nodes_condElse, nodes_condElse]
    refine hR.append ?_ (ih s)
    split
    · exact ihb s
    · exact ihe s

end Render
end Stencil
