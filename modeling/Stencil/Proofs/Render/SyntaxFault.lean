import Stencil.Proofs.Render.Visits
import Stencil.Proofs.Template.FaultPlace
/-! Faults in templates, as a render reports them: each is at a tag of the source in which it stands,
whether that is the template or one of the partials that it includes. -/
namespace Stencil

/-- A fault that ends a render is that of an inclusion, the last thing that the render comes to: the
partial is registered and is not well-formed. -/
structure Execution.EndsIncluding (partials : Partials) (ex : Execution) (name source : Text)
    (e : SyntaxError) : Prop where
  last : ∃ depth location, ex.visits.getLast? = some ⟨depth, .leaf location (.inclusion name)⟩
  registered : partials.get? name = some source
  malformed : Template.parse (some name) source = .error e

namespace Render

/-- Where a source is rejected, the fault is said to be at a tag of it. A render ends with such a
fault either because its own source is rejected or because of a partial that it includes, whose
fault is said to be at a tag of the partial and in a source of its name. -/
theorem syntaxErrors_at_tags :
    (∀ file source e, Template.parse file source = .error e → e.AtTagOf file source) ∧
    ∀ settings partials file source context e,
      (renderSource settings partials file source context).result = .error (.malformed e) →
        Template.parse file source = .error e ∨
        ∃ t ex name included, Template.parse file source = .ok t ∧
          Executes settings partials (Task.ofNodes 0 t.nodes (Scope.ofDatum context)) ex ∧
          ex.EndsIncluding partials name included e ∧ e.AtTagOf (some name) included := by
  refine ⟨fun file source e => SyntaxError.atTagOf_of_parse, ?_⟩
  intro settings partials file source context e h
  cases hparse : Template.parse file source with
  | error e' =>
    rw [renderSource, hparse] at h
    obtain rfl := RenderFailure.malformed.inj (Except.error.inj h)
    exact .inl rfl
  | ok t =>
    obtain ⟨ex, hex, htrace⟩ :=
      exists_executes_run settings partials t.nodes (Scope.ofDatum context)
    have hfailure : ex.trace.failure = some (.malformed e) := by
      simp only [renderSource, hparse, Template.render, Outcome.ofTrace, ← htrace] at h
      split at h
      · next f hf => rw [hf, Except.error.inj h]
      · cases h
    obtain ⟨task, hlast, hstep⟩ := hex.exists_last_of_failure hfailure
    obtain ⟨location, name, included, hnode, hsource, hincluded⟩ :=
      Task.exists_inclusion_of_malformed hstep
    refine .inr ⟨t, ex, name, included, rfl, hex, ⟨⟨task.visit.depth, location, ?_⟩, hsource, hincluded⟩,
      SyntaxError.atTagOf_of_parse hincluded⟩
    rw [hlast, ← hnode]

/-- A partial whose second line closes a condition like a loop, and another one that includes it. -/
def faultyPartial : Text := "x\n  " ++ tagOf "#if y" ++ tagOf "/each"
def faultyPartials : Partials := ⟨[("a", tagOf "> b"), ("b", faultyPartial)]⟩

def closeInFaultyPartial : SyntaxError :=
  ⟨.mismatchedClose (tagOf "/each") Lexeme.ifCloseWord (tagOf "#if y") ⟨4, 2, 3⟩, ⟨13, 2, 12⟩,
    some "b"⟩

/-- The fault ends a render that includes the partial from inside a loop, and it is at a tag of the
partial, not of the template or of the partial between them. -/
theorem syntaxErrors_at_tags_below_loop :
    (renderSource .default faultyPartials (some "t.html")
        (tagOf "#each xs" ++ tagOf "> a" ++ tagOf "/each")
        (.mapping ⟨[("xs", .list [.int 1, .int 2])]⟩)).result =
      .error (.malformed closeInFaultyPartial) ∧
    Template.parse (some "b") faultyPartial = .error closeInFaultyPartial ∧
    closeInFaultyPartial.AtTagOf (some "b") faultyPartial ∧
    ∃ ex : Execution, ex.EndsIncluding faultyPartials "b" faultyPartial closeInFaultyPartial := by
  have hresult : (renderSource .default faultyPartials (some "t.html")
      (tagOf "#each xs" ++ tagOf "> a" ++ tagOf "/each")
      (.mapping ⟨[("xs", .list [.int 1, .int 2])]⟩)).result =
        .error (.malformed closeInFaultyPartial) := by
    decide +kernel
  refine ⟨hresult, ?_⟩
  rcases syntaxErrors_at_tags.2 _ _ _ _ _ _ hresult with
    hown | ⟨t, ex, name, included, -, -, hends, -, -, -, hfile, -⟩
  · obtain ⟨-, -, -, hfile, -⟩ := syntaxErrors_at_tags.1 _ _ _ hown
    simp [closeInFaultyPartial] at hfile
  · obtain rfl : ("b" : Text) = name := Option.some.inj hfile
    obtain rfl : faultyPartial = included := Option.some.inj hends.registered
    exact ⟨hends.malformed, syntaxErrors_at_tags.1 _ _ _ hends.malformed, ex, hends⟩

end Render
end Stencil
