import Stencil.Proofs.Datum.Alike
import Stencil.Proofs.Render.Steps
/-! Renders with alike data go the same way: what the data say is written, and decides nothing. -/
namespace Stencil

/-- A skipped inclusion, which is all that can happen besides the writing of text. -/
def Event.isSkip : Event → Bool
  | .wrote _ => false
  | .missing _ _ | .empty _ _ => true

namespace Trace

variable {a b : Trace}

def skips (t : Trace) : List Event := t.events.filter Event.isSkip

/-- Courses that differ in the text that they write, if in anything. -/
structure SameButText (a b : Trace) : Prop where
  skips : a.skips = b.skips
  failure : a.failure = b.failure

theorem SameButText.refl (a : Trace) : SameButText a a := ⟨rfl, rfl⟩

theorem skips_wrote (text : Text) : (wrote text).skips = [] := by
  unfold wrote
  split <;> rfl

theorem sameButText_wrote (text text' : Text) : SameButText (wrote text) (wrote text') := by
  constructor
  · rw [skips_wrote, skips_wrote]
  · rw [failure_wrote, failure_wrote]

theorem SameButText.isSome (h : SameButText a b) : a.failure.isSome = b.failure.isSome := by
  rw [h.failure]

theorem compatible_sameButText : Compatible SameButText := by
  refine .of_events (.refl _) SameButText.isSome ?_
  intro a b c d hab hcd
  have hskips : a.skips ++ c.skips = b.skips ++ d.skips := by rw [hab.skips, hcd.skips]
  exact ⟨by simpa [Trace.skips] using hskips, hcd.failure⟩

/-- Written text leaves nothing in the warnings and in the log. -/
theorem filterMap_skips {α : Type} {f : Event → Option α} (hf : ∀ text, f (.wrote text) = none)
    (t : Trace) : t.skips.filterMap f = t.events.filterMap f := by
  rw [skips, List.filterMap_filter]
  congr 1
  funext e
  cases e with
  | wrote text => exact (hf text).symm
  | missing | empty => rfl

theorem SameButText.warnings (h : SameButText a b) : a.warnings = b.warnings := by
  rw [Trace.warnings, Trace.warnings, ← filterMap_skips (fun _ => rfl) a,
    ← filterMap_skips (fun _ => rfl) b, h.skips]

theorem SameButText.logs (h : SameButText a b) (settings : Settings) :
    a.logs settings = b.logs settings := by
  rw [Trace.logs, Trace.logs, ← filterMap_skips (fun _ => rfl) a,
    ← filterMap_skips (fun _ => rfl) b, h.skips]

end Trace

/-- Outcomes with the same warnings or the same failure, and with the same log lines. -/
structure Outcome.SameCourse (a b : Outcome) : Prop where
  result : a.result.map Rendering.warnings = b.result.map Rendering.warnings
  logs : a.logs = b.logs

theorem Outcome.SameCourse.refl (a : Outcome) : SameCourse a a := ⟨rfl, rfl⟩

theorem Trace.SameButText.sameCourse {a b : Trace} (h : SameButText a b) (settings : Settings) :
    (Outcome.ofTrace settings a).SameCourse (Outcome.ofTrace settings b) := by
  refine ⟨?_, h.logs settings⟩
  have hfailure := h.failure
  cases ha : a.failure with
  | some f =>
    rw [ha] at hfailure
    simp [Outcome.ofTrace, ha, ← hfailure, Except.map]
  | none =>
    rw [ha] at hfailure
    simp [Outcome.ofTrace, ha, ← hfailure, Except.map, h.warnings]

namespace Task

/-- The same node in alike scopes of documents. -/
structure Twins (t t' : Task) : Prop where
  visit : t.visit = t'.visit
  scope : t.scope.Alike t'.scope
  jsonLike : t.scope.JsonLike
  jsonLike' : t'.scope.JsonLike

variable {settings : Settings} {partials : Partials} {t t' : Task} {s s' : Scope}

theorem twins_ofNodes (h : s.Alike s') (hs : s.JsonLike) (hs' : s'.JsonLike) (depth : Nat)
    (ns : List Node) : List.Forall₂ Twins (ofNodes depth ns s) (ofNodes depth ns s') := by
  induction ns with
  | nil => exact .nil
  | cons n ns ih => exact .cons ⟨rfl, h, hs, hs'⟩ ih

/-- An inclusion does not ask the scope, but hands it on. -/
theorem inclusion_alike (settings : Settings) (partials : Partials) (depth : Nat) (h : s.Alike s')
    (hs : s.JsonLike) (hs' : s'.JsonLike) (name : Text) (location : Location) :
    (inclusion settings partials depth s name location).1 =
        (inclusion settings partials depth s' name location).1 ∧
      List.Forall₂ Twins (inclusion settings partials depth s name location).2
        (inclusion settings partials depth s' name location).2 := by
  unfold inclusion
  split
  · exact ⟨rfl, .nil⟩
  · exact ⟨rfl, .nil⟩
  · split
    · exact ⟨rfl, .nil⟩
    · split
      · exact ⟨rfl, .nil⟩
      · exact ⟨rfl, twins_ofNodes h hs hs' _ _⟩

theorem twins_passes {depth : Nat} {body : List Node} {items items' : List Datum}
    (h : s.Alike s') (hs : s.JsonLike) (hs' : s'.JsonLike)
    (hitems : List.Forall₂ Datum.Alike items items') (hvalues : ∀ item ∈ items, item.JsonLike)
    (hvalues' : ∀ item ∈ items', item.JsonLike) :
    List.Forall₂ Twins ((Render.passes s items).flatMap fun inner => ofNodes depth body inner)
      ((Render.passes s' items').flatMap fun inner => ofNodes depth body inner) := by
  have hpasses : List.Forall₂ (fun inner inner' => List.Forall₂ Twins (ofNodes depth body inner)
      (ofNodes depth body inner')) (Render.passes s items) (Render.passes s' items') := by
    rw [Render.passes_eq, Render.passes_eq, List.forall₂_iff_get]
    refine ⟨by simp [hitems.length_eq], ?_⟩
    intro k hk hk'
    have hlt : k < items.length := by simpa using hk
    have hlt' : k < items'.length := by simpa using hk'
    have hitem : items[k].Alike items'[k] := hitems.get hlt hlt'
    -- The number of elements is part of the scope, and it is the same in both loops.
    have hinner := h.child hitem k items.length
    have hjson := hs.child (hvalues _ (List.getElem_mem hlt)) k items.length
    have hjson' := hs'.child (hvalues' _ (List.getElem_mem hlt')) k items'.length
    rw [hitems.length_eq] at hinner hjson
    simpa [hitems.length_eq] using twins_ofNodes hinner hjson hjson' depth body
  generalize Render.passes s items = inners at hpasses
  generalize Render.passes s' items' = inners' at hpasses
  induction hpasses with
  | nil => exact .nil
  | cons hinner _ ih => exact List.rel_append hinner ih

/-- A step in alike scopes differs only in the text that it writes, and calls for the same nodes in
alike scopes. -/
theorem Twins.step (husable : settings.Usable) (h : Twins t t') :
    Trace.SameButText (t.step settings partials).1 (t'.step settings partials).1 ∧
      List.Forall₂ Twins (t.step settings partials).2 (t'.step settings partials).2 := by
  obtain ⟨⟨depth, node⟩, s⟩ := t
  obtain ⟨visit, s'⟩ := t'
  obtain ⟨rfl, halike, hs, hs'⟩ := h
  cases node with
  | leaf location l =>
    by_cases hl : ∃ name, l = .inclusion name
    · obtain ⟨name, rfl⟩ := hl
      obtain ⟨hown, hnext⟩ := inclusion_alike settings partials depth halike hs hs' name location
      refine ⟨?_, hnext⟩
      show Trace.SameButText (inclusion settings partials depth s name location).1 _
      rw [hown]
      exact .refl _
    · have hl : ∀ name, l ≠ .inclusion name := fun name hname => hl ⟨name, hname⟩
      obtain ⟨text, hstep⟩ := step_leaf_eq_wrote husable hs hl
      obtain ⟨text', hstep'⟩ := step_leaf_eq_wrote husable hs' hl
      rw [hstep, hstep']
      exact ⟨Trace.sameButText_wrote text text', .nil⟩
  | each location path body =>
    refine ⟨.refl _, ?_⟩
    have hfound := (halike.resolve path).items?
    have hvalues : ∀ items, (s.resolve path).items? = some items → ∀ item ∈ items, item.JsonLike :=
      fun _ hd => (hs.found_resolve path).items? hd
    have hvalues' : ∀ items, (s'.resolve path).items? = some items →
        ∀ item ∈ items, item.JsonLike := fun _ hd => (hs'.found_resolve path).items? hd
    simp only [Task.step]
    generalize (s.resolve path).items? = found at hfound hvalues
    generalize (s'.resolve path).items? = found' at hfound hvalues'
    cases hfound with
    | none => exact .nil
    | some hitems =>
      exact twins_passes halike hs hs' hitems (hvalues _ rfl) (hvalues' _ rfl)
  | cond location path body elseBody =>
    refine ⟨.refl _, ?_⟩
    have htruthy := (halike.resolve path).isTruthy
    simp only [Task.step, htruthy]
    exact twins_ofNodes halike hs hs' depth _

theorem lockstep_twins (husable : settings.Usable) :
    Lockstep settings settings partials partials Twins Trace.SameButText where
  compatible := Trace.compatible_sameButText
  failure := Trace.SameButText.isSome
  visit := fun h => h.visit
  own := fun h => (h.step husable).1
  next := fun h => (h.step husable).2

end Task

section

variable {settings : Settings} {context context' : Datum}

/-- With alike data a tree is executed in the same visits, with the same skipped inclusions and the
same failure. -/
theorem exists_matching_executions (partials : Partials) (husable : settings.Usable)
    (halike : context.Alike context') (hcontext : context.JsonLike) (hcontext' : context'.JsonLike)
    (t : Template) :
    ∃ e e', Executes settings partials (Task.ofNodes 0 t.nodes (Scope.ofDatum context)) e ∧
      Executes settings partials (Task.ofNodes 0 t.nodes (Scope.ofDatum context')) e' ∧
      t.render settings partials context = .ofTrace settings e.trace ∧
      t.render settings partials context' = .ofTrace settings e'.trace ∧
      e.Matches Trace.SameButText e' := by
  obtain ⟨e, he, htrace⟩ :=
    Render.exists_executes_run settings partials t.nodes (Scope.ofDatum context)
  obtain ⟨e', he', htrace'⟩ :=
    Render.exists_executes_run settings partials t.nodes (Scope.ofDatum context')
  have htwins := Task.twins_ofNodes (Scope.alike_ofDatum halike hcontext hcontext')
    (Scope.jsonLike_ofDatum hcontext) (Scope.jsonLike_ofDatum hcontext') 0 t.nodes
  refine ⟨e, e', he, he', ?_, ?_, (Task.lockstep_twins husable).matches he he' htwins⟩
  · rw [Template.render, htrace]
  · rw [Template.render, htrace']

theorem sameCourse_render (partials : Partials) (husable : settings.Usable)
    (halike : context.Alike context') (hcontext : context.JsonLike) (hcontext' : context'.JsonLike)
    (t : Template) :
    (t.render settings partials context).SameCourse (t.render settings partials context') := by
  obtain ⟨e, e', -, -, hrender, hrender', hmatches⟩ :=
    exists_matching_executions partials husable halike hcontext hcontext' t
  rw [hrender, hrender']
  exact hmatches.trace.sameCourse settings

/-- Data cannot steer a render. With data that differ only in what scalars of equal truth are, a
tree is executed in the same visits, and a tree or a source has the same warnings and log lines or
the same failure. -/
theorem sameCourse_of_alike (settings : Settings) (partials : Partials) (context context' : Datum)
    (husable : settings.Usable) (halike : context.Alike context') (hcontext : context.JsonLike)
    (hcontext' : context'.JsonLike) :
    (∀ t : Template, ∃ e e',
      Executes settings partials (Task.ofNodes 0 t.nodes (Scope.ofDatum context)) e ∧
      Executes settings partials (Task.ofNodes 0 t.nodes (Scope.ofDatum context')) e' ∧
      t.render settings partials context = .ofTrace settings e.trace ∧
      t.render settings partials context' = .ofTrace settings e'.trace ∧ e.visits = e'.visits) ∧
    (∀ t : Template,
      (t.render settings partials context).SameCourse (t.render settings partials context')) ∧
    ∀ file source, (renderSource settings partials file source context).SameCourse
      (renderSource settings partials file source context') := by
  refine ⟨?_, ?_, ?_⟩
  · intro t
    obtain ⟨e, e', he, he', hrender, hrender', hmatches⟩ :=
      exists_matching_executions partials husable halike hcontext hcontext' t
    exact ⟨e, e', he, he', hrender, hrender', hmatches.visits⟩
  · exact sameCourse_render partials husable halike hcontext hcontext'
  · intro file source
    unfold renderSource
    split
    · exact .refl _
    · exact sameCourse_render partials husable halike hcontext hcontext' _

end

theorem Datum.jsonLike_single {key : Text} {d : Datum} (h : d.JsonLike) :
    (Datum.mapping ⟨[(key, d)]⟩).JsonLike :=
  .mapping (by simp [Mapping.Distinct, Mapping.keys]) (List.forall_mem_singleton.2 h)

theorem Datum.alike_single {key : Text} {d d' : Datum} (h : d.Alike d') :
    (Datum.mapping ⟨[(key, d)]⟩).Alike (.mapping ⟨[(key, d')]⟩) :=
  alike_of_entries (.cons ⟨rfl, h⟩ .nil)

/-- A page that shows `x` and, if it is there, skips an inclusion. -/
def pageOfText : Text :=
  tagOf "md x" ++ tagOf "#if x" ++ tagOf "> gone" ++ tagOf "/if"

/-- A value that is spelled like an inclusion and half a tag does what any other text does. -/
theorem sameCourse_of_tagText :
    (renderSource .default ⟨[("p", "included")]⟩ none pageOfText
        (.mapping ⟨[("x", .str (tagOf "> p" ++ openBraces))]⟩)).SameCourse
      (renderSource .default ⟨[("p", "included")]⟩ none pageOfText
        (.mapping ⟨[("x", .str "any other text")]⟩)) := by
  have halike : (Datum.mapping ⟨[("x", .str (tagOf "> p" ++ openBraces))]⟩).Alike
      (.mapping ⟨[("x", .str "any other text")]⟩) :=
    Datum.alike_single (.scalar rfl rfl rfl)
  exact (sameCourse_of_alike .default ⟨[("p", "included")]⟩ _ _ Settings.usable_default halike
    (Datum.jsonLike_single (.str _)) (Datum.jsonLike_single (.str _))).2.2 none pageOfText

/-- An indentation that is too wide for any text is used for null, but not for empty text. -/
theorem not_sameCourse_of_widthBound :
    ¬ ∀ (settings : Settings) (partials : Partials) (context context' : Datum),
      context.Alike context' → context.JsonLike → context'.JsonLike →
      ∀ file source, (renderSource settings partials file source context).SameCourse
        (renderSource settings partials file source context') := by
  intro hall
  have hsame := hall { Settings.default with indent := .int Settings.widthBound } .empty
    (.mapping ⟨[("x", .str [])]⟩) (.mapping ⟨[("x", .null)]⟩)
    (Datum.alike_single (.scalar rfl rfl rfl)) (Datum.jsonLike_single (.str _))
    (Datum.jsonLike_single .null) none (tagOf "json x")
  have htext : (renderSource { Settings.default with indent := .int Settings.widthBound } .empty
      none (tagOf "json x") (.mapping ⟨[("x", .str [])]⟩)).result = .ok ⟨"\"\"", []⟩ := by
    decide +kernel
  have hnull : (renderSource { Settings.default with indent := .int Settings.widthBound } .empty
      none (tagOf "json x") (.mapping ⟨[("x", .null)]⟩)).result =
        .error (.unusable .indentTooWide) := by
    decide +kernel
  have hresult := hsame.result
  rw [htext, hnull] at hresult
  cases hresult

end Stencil
