import Stencil.Proofs.Datum.Printable
import Stencil.Proofs.Render.Execution
import Stencil.Proofs.Template.Scan
/-! What one step of an execution can fail with, and what it can call for. -/
namespace Stencil

/-- Settings whose indentation and line break every value can be written with. -/
structure Settings.Usable (settings : Settings) : Prop where
  layout : settings.layout.isOk
  lineBreak : settings.lineBreakText.isOk

theorem Settings.usable_default : Settings.default.Usable := ⟨rfl, rfl⟩

namespace Settings.Usable

variable {settings : Settings}

theorem exists_json (h : settings.Usable) (d : Datum) : ∃ text, settings.json d = .ok text := by
  obtain ⟨layout, hlayout⟩ := exists_ok_of_isOk h.layout
  unfold Settings.json
  split
  · exact ⟨_, rfl⟩
  · exact ⟨_, by rw [hlayout]; rfl⟩

theorem exists_inlineMarkup (h : settings.Usable) (text : Text) :
    ∃ html, Render.inlineMarkup settings text = .ok html := by
  obtain ⟨lineBreak, hbreak⟩ := exists_ok_of_isOk h.lineBreak
  unfold Render.inlineMarkup
  split
  · exact ⟨_, rfl⟩
  · exact ⟨_, by rw [hbreak]; rfl⟩

theorem exists_blockMarkup (h : settings.Usable) (text : Text) :
    ∃ html, Render.blockMarkup settings text = .ok html := by
  obtain ⟨lineBreak, hbreak⟩ := exists_ok_of_isOk h.lineBreak
  unfold Render.blockMarkup
  split
  · exact ⟨_, rfl⟩
  · exact ⟨_, by rw [hbreak]; rfl⟩

/-- Whatever data a leaf that is no inclusion finds, it writes some text. -/
theorem leaf_eq_wrote (h : settings.Usable) {s : Scope} (hs : s.JsonLike) {l : Leaf}
    (hl : ∀ name, l ≠ .inclusion name) (i : Inclusion) (location : Location) :
    ∃ text, Render.leaf settings i s location l = .wrote text := by
  cases l with
  | text content => exact ⟨content, rfl⟩
  | inclusion name => exact absurd rfl (hl name)
  | value path =>
    exact ⟨(s.resolve path).print, by rw [Render.leaf, (hs.found_resolve path).printed]; rfl⟩
  | markdown inline path =>
    have hprinted := (hs.found_resolve path).printed
    cases inline with
    | true =>
      obtain ⟨html, hhtml⟩ := h.exists_inlineMarkup (s.resolve path).print
      exact ⟨html, by rw [Render.leaf, hprinted, Except.bind, hhtml]; rfl⟩
    | false =>
      obtain ⟨html, hhtml⟩ := h.exists_blockMarkup (s.resolve path).print
      exact ⟨html, by rw [Render.leaf, hprinted, Except.bind, hhtml]; rfl⟩
  | json path =>
    rw [Render.leaf]
    split
    · exact ⟨[], rfl⟩
    · obtain ⟨text, htext⟩ := h.exists_json (s.resolve path).plain
      exact ⟨text, by rw [htext]; rfl⟩

end Settings.Usable

theorem Trace.failure_wrote (text : Text) : (wrote text).failure = none := by
  unfold wrote
  split <;> rfl

namespace Task

variable {settings : Settings} {partials : Partials} {t u : Task} {f : RenderFailure}
  {depth : Nat} {s : Scope} {name : Text} {location : Location}

/-- How an inclusion fails: there are as many around it as the limit allows, or the partial is not
well-formed. -/
inductive Refused (settings : Settings) (partials : Partials) :
    Nat → Text → Location → RenderFailure → Prop
  | noRoom {depth : Nat} {name source : Text} {location : Location}
      (hsource : partials.get? name = some source) (hne : source ≠ [])
      (hroom : settings.room ≤ depth) :
      Refused settings partials depth name location (Render.noRoom settings name location)
  | malformed {depth : Nat} {name source : Text} {location : Location} {e : SyntaxError}
      (hsource : partials.get? name = some source) (hne : source ≠ [])
      (hparse : Template.parse (some name) source = .error e) :
      Refused settings partials depth name location (.malformed e)

theorem refused_of_inclusion
    (h : (inclusion settings partials depth s name location).1.failure = some f) :
    Refused settings partials depth name location f := by
  unfold inclusion at h
  split at h
  · cases h
  · cases h
  · next source hne hsource =>
    split at h
    · next hroom =>
      obtain rfl := Option.some.inj h
      exact .noRoom hsource hne hroom
    · split at h
      · next e hparse =>
        obtain rfl := Option.some.inj h
        exact .malformed hsource hne hparse
      · cases h

/-- On data of documents, and with settings that can be used, any other leaf writes some text. -/
theorem step_leaf_eq_wrote (husable : settings.Usable) (hs : s.JsonLike) {l : Leaf}
    (hl : ∀ name, l ≠ .inclusion name) :
    ∃ text, step settings partials ⟨⟨depth, .leaf location l⟩, s⟩ = (.wrote text, []) := by
  obtain ⟨text, htext⟩ := husable.leaf_eq_wrote hs hl (fun _ _ _ => .empty) location
  refine ⟨text, ?_⟩
  cases l with
  | inclusion name => exact absurd rfl (hl name)
  | text | value | markdown | json => exact congrArg (·, []) htext

/-- So only inclusions fail. -/
theorem refused_of_step (husable : settings.Usable) (hs : t.scope.JsonLike)
    (h : (t.step settings partials).1.failure = some f) :
    ∃ location name, t.visit.node = .leaf location (.inclusion name) ∧
      Refused settings partials t.visit.depth name location f := by
  obtain ⟨⟨depth, node⟩, s⟩ := t
  cases node with
  | each location path body => cases h
  | cond location path body elseBody => cases h
  | leaf location l =>
    by_cases hl : ∃ name, l = .inclusion name
    · obtain ⟨name, rfl⟩ := hl
      exact ⟨location, name, rfl, refused_of_inclusion h⟩
    · have hl : ∀ name, l ≠ .inclusion name := fun name hname => hl ⟨name, hname⟩
      obtain ⟨text, hstep⟩ := step_leaf_eq_wrote husable hs hl
      rw [hstep, Trace.failure_wrote] at h
      cases h

/-- What a task can call for: an inclusion the nodes of the partial, one level further down, a loop
its body in a scope for one of the elements, and a condition one of its bodies. -/
inductive Calls (settings : Settings) (partials : Partials) : Task → Task → Prop
  | included {depth : Nat} {location : Location} {name source : Text} {u : Template} {s : Scope}
      {n : Node} (hsource : partials.get? name = some source) (hne : source ≠ [])
      (hroom : depth < settings.room) (hparse : Template.parse (some name) source = .ok u)
      (hn : n ∈ u.nodes) :
      Calls settings partials ⟨⟨depth, .leaf location (.inclusion name)⟩, s⟩ ⟨⟨depth + 1, n⟩, s⟩
  | looped {depth k : Nat} {location : Location} {path : Text} {body : List Node} {s : Scope}
      {items : List Datum} {item : Datum} {n : Node} (hitems : (s.resolve path).items? = some items)
      (hitem : items[k]? = some item) (hn : n ∈ body) :
      Calls settings partials ⟨⟨depth, .each location path body⟩, s⟩
        ⟨⟨depth, n⟩, s.child item k items.length⟩
  | chosen {depth : Nat} {location : Location} {path : Text} {body : List Node}
      {elseBody : Option (List Node)} {s : Scope} {n : Node}
      (hn : n ∈ if (s.resolve path).isTruthy then body else elseBody.getD []) :
      Calls settings partials ⟨⟨depth, .cond location path body elseBody⟩, s⟩ ⟨⟨depth, n⟩, s⟩

theorem mem_ofNodes {ns : List Node} (h : u ∈ ofNodes depth ns s) :
    ∃ n ∈ ns, u = ⟨⟨depth, n⟩, s⟩ := by
  obtain ⟨n, hn, rfl⟩ := List.mem_map.1 h
  exact ⟨n, hn, rfl⟩

theorem calls_of_inclusion
    (h : u ∈ (inclusion settings partials depth s name location).2) :
    Calls settings partials ⟨⟨depth, .leaf location (.inclusion name)⟩, s⟩ u := by
  unfold inclusion at h
  split at h
  · cases h
  · cases h
  · next source hne hsource =>
    split at h
    · cases h
    · next hroom =>
      split at h
      · cases h
      · next v hparse =>
        obtain ⟨n, hn, rfl⟩ := mem_ofNodes h
        exact .included hsource hne (Nat.lt_of_not_le hroom) hparse hn

theorem mem_passes {items : List Datum} {inner : Scope} (h : inner ∈ Render.passes s items) :
    ∃ (k : Nat) (item : Datum), items[k]? = some item ∧ inner = s.child item k items.length := by
  obtain ⟨k, hk, rfl⟩ := List.mem_mapIdx.1 h
  exact ⟨k, items[k], List.getElem?_eq_getElem hk, rfl⟩

/-- A step calls for nothing else. -/
theorem calls_of_step (h : u ∈ (t.step settings partials).2) : Calls settings partials t u := by
  obtain ⟨⟨depth, node⟩, s⟩ := t
  cases node with
  | leaf location l =>
    cases l with
    | inclusion name => exact calls_of_inclusion h
    | text | value | markdown | json => cases h
  | each location path body =>
    simp only [step] at h
    split at h
    · cases h
    · next items hitems =>
      obtain ⟨inner, hinner, hu⟩ := List.mem_flatMap.1 h
      obtain ⟨k, item, hitem, rfl⟩ := mem_passes hinner
      obtain ⟨n, hn, rfl⟩ := mem_ofNodes hu
      exact .looped hitems hitem hn
  | cond location path body elseBody =>
    obtain ⟨n, hn, rfl⟩ := mem_ofNodes h
    exact .chosen hn

/-- On data of documents everything stays on such data. -/
theorem Calls.jsonLike (h : Calls settings partials t u) (ht : t.scope.JsonLike) :
    u.scope.JsonLike := by
  cases h with
  | included => exact ht
  | @looped _ k location path _ s items _ _ hitems hitem =>
    have hfound : ∀ item ∈ items, item.JsonLike :=
      (Scope.JsonLike.found_resolve ht path).items? hitems
    exact Scope.JsonLike.child ht (hfound _ (List.mem_of_getElem? hitem)) _ _
  | chosen => exact ht

end Task
end Stencil
