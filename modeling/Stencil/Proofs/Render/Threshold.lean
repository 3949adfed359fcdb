import Stencil.Proofs.Render.Termination
/-! The limit of inclusions: a render that succeeds does so under every limit that its execution does
not exceed, and the limit shows in nothing else. -/
namespace Stencil

/-- The settings with another limit, a whole number. -/
def Settings.withLimit (settings : Settings) (limit : Int) : Settings :=
  { settings with inclusionLimit := .int limit }

/-- The level that a visit opens: an inclusion of a partial that is registered and not empty is one
deeper than what stands around it. Nothing else opens a level, missing and empty partials neither. -/
def Visit.level (partials : Partials) (v : Visit) : Nat :=
  match v.node with
  | .leaf _ (.inclusion name) =>
    match partials.get? name with
    | none | some [] => 0
    | some (_ :: _) => v.depth + 1
  | _ => 0

/-- The deepest nesting of partials that an execution comes to. -/
def Execution.nesting (partials : Partials) (e : Execution) : Nat :=
  (e.visits.map (Visit.level partials)).foldr max 0

/-- The render was ended by an inclusion that the limit leaves no room for. -/
def Outcome.IsTooDeep (limit : Int) (o : Outcome) : Prop :=
  ∃ name location, o.result = .error (.tooDeep name location (.int limit))

/-- A render has one outcome under all limits from `n` on, and is too deep under all before. -/
structure ThresholdAt (outcome : Int → Outcome) (n : Nat) (o : Outcome) : Prop where
  above : ∀ limit : Int, n ≤ limit → outcome limit = o
  below : ∀ limit : Int, 0 ≤ limit → limit < n → (outcome limit).IsTooDeep limit

/-- How the outcome of a render, which executes some tasks, depends on the limit. -/
structure LimitIsThreshold (settings : Settings) (partials : Partials) (tasks : List Task)
    (outcome : Int → Outcome) : Prop where
  /-- Under a smaller limit the outcome is the same or too deep. -/
  unseen : ∀ limit limit', limit ≤ limit' →
    outcome limit = outcome limit' ∨ (outcome limit).IsTooDeep limit
  executes : ∀ limit, ∃ e, Executes (settings.withLimit limit) partials tasks e ∧
    outcome limit = .ofTrace settings e.trace
  /-- A success goes on from the deepest nesting of its execution. -/
  threshold : ∀ limit e r, Executes (settings.withLimit limit) partials tasks e →
    (outcome limit).result = .ok r →
    ThresholdAt outcome (e.nesting partials) (outcome limit)
  /-- Nothing that is missing or empty brings the limit into play. -/
  idle : ∀ limit e, Executes (settings.withLimit limit) partials tasks e →
    e.nesting partials = 0 → ∀ limit', outcome limit' = outcome limit

section

variable {settings settings' : Settings} {partials : Partials} {limit limit' : Int} {t : Task}
  {ts : List Task} {e : Execution} {ns : List Node} {s : Scope} {context : Datum}

theorem Settings.room_withLimit (settings : Settings) (limit : Int) :
    (settings.withLimit limit).room = limit.toNat := room_of_int rfl

theorem Execution.nesting_le_iff {n : Nat} :
    e.nesting partials ≤ n ↔ ∀ v ∈ e.visits, v.level partials ≤ n := by
  unfold nesting
  induction e.visits with
  | nil => simp
  | cons v vs ih => rw [List.map_cons, List.foldr_cons, Nat.max_le, ih, List.forall_mem_cons]

/-- No leaf asks for the limit. -/
theorem Render.alikeInLeaves_withLimit (settings : Settings) (limit limit' : Int) :
    AlikeInLeaves (settings.withLimit limit) (settings.withLimit limit') := by
  intro i s location l
  cases l with
  | markdown inline path => cases inline <;> rfl
  | text | value | inclusion | json => rfl

namespace Task

/-- Where there is room for what a task opens, the limit does not matter for its step. -/
theorem step_eq_of_level_le (hleaf : Render.AlikeInLeaves settings settings')
    (h : t.visit.level partials ≤ settings.room) (h' : t.visit.level partials ≤ settings'.room) :
    t.step settings partials = t.step settings' partials := by
  obtain ⟨⟨depth, node⟩, s⟩ := t
  cases node with
  | each | cond => rfl
  | leaf location l =>
    cases l with
    | text | value | markdown | json => exact congrArg (·, []) (hleaf _ s location _)
    | inclusion name =>
      simp only [step, inclusion]
      simp only [Visit.level] at h h'
      cases hp : partials.get? name with
      | none => rfl
      | some source =>
        cases source with
        | nil => rfl
        | cons c source =>
          simp only [hp] at h h'
          have hroom : ¬ settings.room ≤ depth := by omega
          have hroom' : ¬ settings'.room ≤ depth := by omega
          simp only [hroom, hroom', if_false]

/-- A step that does not fail has room for what it opens. -/
theorem level_le_of_step (h : (t.step settings partials).1.failure = none) :
    t.visit.level partials ≤ settings.room := by
  obtain ⟨⟨depth, node⟩, s⟩ := t
  cases node with
  | each | cond => exact Nat.zero_le _
  | leaf location l =>
    cases l with
    | text | value | markdown | json => exact Nat.zero_le _
    | inclusion name =>
      simp only [step, inclusion] at h
      simp only [Visit.level]
      cases hp : partials.get? name with
      | none => exact Nat.zero_le _
      | some source =>
        cases source with
        | nil => exact Nat.zero_le _
        | cons c source =>
          by_cases hroom : settings.room ≤ depth
          · simp only [hp, hroom, if_true] at h
            cases h
          · exact Nat.lt_of_not_le hroom

end Task

namespace Executes

variable {a b : Execution}

theorem visits_subset_append (a b : Execution) : a.visits ⊆ (a ++ b).visits := by
  intro v hv
  cases ha : a.trace.failure with
  | some f => rwa [Execution.append_of_failure (by simp [ha])]
  | none =>
    rw [Execution.append_of_none ha]
    exact List.mem_append_left _ hv

theorem visits_subset_append_of_none (h : a.trace.failure = none) (b : Execution) :
    b.visits ⊆ (a ++ b).visits := by
  rw [Execution.append_of_none h]
  exact List.subset_append_right _ _

/-- An execution that two limits leave room for is one under both. -/
theorem of_level_le (hleaf : Render.AlikeInLeaves settings settings')
    (h : Executes settings partials ts e)
    (hroom : ∀ v ∈ e.visits, v.level partials ≤ min settings.room settings'.room) :
    Executes settings' partials ts e := by
  induction h with
  | nil => exact .nil
  | @cons t ts below after _ _ ihbelow ihafter =>
    have hvisit : t.visit ∈ (t.own settings partials ++ below ++ after).visits :=
      visits_subset_append _ _ (visits_subset_append _ _ List.mem_cons_self)
    have hlevel := Nat.le_min.1 (hroom _ hvisit)
    have hstep : t.step settings partials = t.step settings' partials :=
      Task.step_eq_of_level_le hleaf hlevel.1 hlevel.2
    have hown : t.own settings partials = t.own settings' partials := by
      rw [Task.own, Task.own, hstep]
    have hbelow : (t.own settings' partials).trace.failure = none →
        Executes settings' partials (t.step settings' partials).2 below := by
      intro hnone
      rw [← hown] at hnone
      rw [← hstep]
      refine ihbelow hnone fun v hv => hroom v ?_
      exact visits_subset_append _ _ (visits_subset_append_of_none hnone _ hv)
    have hafter : (t.own settings' partials ++ below).trace.failure = none →
        Executes settings' partials ts after := by
      intro hnone
      rw [← hown] at hnone
      exact ihafter hnone fun v hv => hroom v (visits_subset_append_of_none hnone _ hv)
    rw [hown]
    exact .cons hbelow hafter

/-- A successful execution has room for all that it comes to. -/
theorem level_le_room (h : Executes settings partials ts e) (he : e.trace.failure = none) :
    ∀ v ∈ e.visits, v.level partials ≤ settings.room := by
  induction h with
  | nil => exact nofun
  | @cons t ts below after _ _ ihbelow ihafter =>
    obtain ⟨hfront, hafter⟩ := Trace.failure_append_eq_none_iff.1 he
    obtain ⟨hown, hbelow⟩ := Trace.failure_append_eq_none_iff.1 hfront
    rw [Execution.append_of_none hfront, Execution.append_of_none hown]
    intro v hv
    rcases List.mem_append.1 hv with hv | hv
    · rcases List.mem_append.1 hv with hv | hv
      · obtain rfl := List.mem_singleton.1 hv
        exact Task.level_le_of_step hown
      · exact ihbelow hown hbelow v hv
    · exact ihafter hfront hafter v hv

end Executes

namespace Template

variable {t : Template}

theorem render_of_executes
    (h : Executes settings partials (Task.ofNodes 0 t.nodes (Scope.ofDatum context)) e) :
    t.render settings partials context = .ofTrace settings e.trace := by
  obtain ⟨e', he', htrace⟩ :=
    Render.exists_executes_run settings partials t.nodes (Scope.ofDatum context)
  rw [Template.render, ← htrace, he'.unique h]

theorem render_eq_or_isTooDeep (t : Template) (settings : Settings) (partials : Partials)
    (context : Datum) (hle : limit ≤ limit') :
    t.render (settings.withLimit limit) partials context =
        t.render (settings.withLimit limit') partials context ∨
      (t.render (settings.withLimit limit) partials context).IsTooDeep limit := by
  have hroom : (settings.withLimit limit).room ≤ (settings.withLimit limit').room := by
    rw [Settings.room_withLimit, Settings.room_withLimit]
    exact Int.toNat_le_toNat hle
  rcases Render.nodes_upToRoom (Render.alikeInLeaves_withLimit settings limit limit') partials hroom
    t.nodes (Scope.ofDatum context) with ⟨f, hf, name, location, rfl⟩ | hsame
  · refine .inr ⟨name, location, ?_⟩
    rw [Render.noRoom_of_int rfl] at hf
    simp only [Template.render, Render.run_eq, Outcome.ofTrace, hf]
  · refine .inl ?_
    simp only [Template.render, Render.run_eq, hsame]
    rfl

/-- Limits that leave room for an execution make no difference. -/
theorem render_withLimit_eq
    (h : Executes (settings.withLimit limit) partials
      (Task.ofNodes 0 t.nodes (Scope.ofDatum context)) e)
    (hroom : ∀ v ∈ e.visits, v.level partials ≤ min limit.toNat limit'.toNat) :
    t.render (settings.withLimit limit') partials context =
      t.render (settings.withLimit limit) partials context := by
  have h' : Executes (settings.withLimit limit') partials
      (Task.ofNodes 0 t.nodes (Scope.ofDatum context)) e := by
    refine h.of_level_le (Render.alikeInLeaves_withLimit settings limit limit') ?_
    rwa [Settings.room_withLimit, Settings.room_withLimit]
  rw [render_of_executes h, render_of_executes h']
  rfl

theorem failure_of_render_ok {r : Rendering} (h : Executes settings partials
      (Task.ofNodes 0 t.nodes (Scope.ofDatum context)) e)
    (hr : (t.render settings partials context).result = .ok r) : e.trace.failure = none := by
  rw [render_of_executes h] at hr
  cases hf : e.trace.failure with
  | none => rfl
  | some f =>
    simp only [Outcome.ofTrace, hf] at hr
    cases hr

/-- The nesting of a successful execution is where the limit begins to leave room for it. -/
theorem thresholdAt_nesting {r : Rendering}
    (h : Executes (settings.withLimit limit) partials
      (Task.ofNodes 0 t.nodes (Scope.ofDatum context)) e)
    (hr : (t.render (settings.withLimit limit) partials context).result = .ok r) :
    ThresholdAt (fun limit => t.render (settings.withLimit limit) partials context)
      (e.nesting partials) (t.render (settings.withLimit limit) partials context) := by
  have hnone := failure_of_render_ok h hr
  have hlimit : e.nesting partials ≤ limit.toNat := by
    rw [Execution.nesting_le_iff, ← Settings.room_withLimit settings]
    exact h.level_le_room hnone
  refine ⟨?_, ?_⟩
  · intro limit' hle
    refine render_withLimit_eq h (Execution.nesting_le_iff.1 ?_)
    omega
  · intro limit' hpos hlt
    have hle : limit' ≤ limit := by omega
    refine (render_eq_or_isTooDeep t settings partials context hle).resolve_left ?_
    -- An equal outcome would be that of an execution with room for itself under the smaller limit.
    intro hsame
    obtain ⟨e', he', -⟩ := Render.exists_executes_run (settings.withLimit limit') partials t.nodes
      (Scope.ofDatum context)
    have hroom : ∀ v ∈ e'.visits, v.level partials ≤ limit'.toNat := by
      rw [← Settings.room_withLimit settings]
      exact he'.level_le_room (failure_of_render_ok he' (by rw [hsame]; exact hr))
    have hback : Executes (settings.withLimit limit) partials
        (Task.ofNodes 0 t.nodes (Scope.ofDatum context)) e' := by
      refine he'.of_level_le (Render.alikeInLeaves_withLimit settings limit' limit) ?_
      rw [Settings.room_withLimit, Settings.room_withLimit]
      intro v hv
      have := hroom v hv
      omega
    have hnesting := Execution.nesting_le_iff.2 hroom
    rw [hback.unique h] at hnesting
    omega

theorem limitIsThreshold (t : Template) (settings : Settings) (partials : Partials)
    (context : Datum) :
    LimitIsThreshold settings partials (Task.ofNodes 0 t.nodes (Scope.ofDatum context))
      fun limit => t.render (settings.withLimit limit) partials context where
  unseen := fun _ _ hle => render_eq_or_isTooDeep t settings partials context hle
  executes := by
    intro limit
    obtain ⟨e, he, -⟩ := Render.exists_executes_run (settings.withLimit limit) partials t.nodes
      (Scope.ofDatum context)
    exact ⟨e, he, render_of_executes he⟩
  threshold := fun _ _ _ he hr => thresholdAt_nesting he hr
  idle := by
    intro limit e he hnesting limit'
    refine render_withLimit_eq he fun v hv => ?_
    have hlevel := Execution.nesting_le_iff.1 (Nat.le_of_eq hnesting) v hv
    omega

end Template
end

namespace Render

/-- The limit of inclusions is a threshold and is not seen otherwise, for a template as for a source.
A source that is not well-formed has the same failure under every limit. -/
theorem limit_is_threshold (settings : Settings) (partials : Partials) (context : Datum) :
    (∀ t : Template, LimitIsThreshold settings partials
      (Task.ofNodes 0 t.nodes (Scope.ofDatum context))
      fun limit => t.render (settings.withLimit limit) partials context) ∧
    ∀ file source,
      (∀ t, Template.parse file source = .ok t → LimitIsThreshold settings partials
        (Task.ofNodes 0 t.nodes (Scope.ofDatum context))
        fun limit => renderSource (settings.withLimit limit) partials file source context) ∧
      ∀ e, Template.parse file source = .error e → ∀ limit,
        renderSource (settings.withLimit limit) partials file source context =
          ⟨.error (.malformed e), []⟩ := by
  refine ⟨fun t => t.limitIsThreshold settings partials context, fun file source => ⟨?_, ?_⟩⟩
  · intro t hparse
    simp only [renderSource, hparse]
    exact t.limitIsThreshold settings partials context
  · intro e hparse limit
    simp only [renderSource, hparse]

/-- A loop in which a partial includes another one, a missing one and an empty one. -/
def nestedSource : Text := tagOf "#each xs" ++ tagOf "> outer" ++ tagOf "/each"

def nestedPartials : Partials :=
  ⟨[("outer", tagOf "> inner" ++ tagOf "> gone" ++ tagOf "> hollow"), ("inner", tagOf "_value"),
    ("hollow", [])]⟩

def nestedContext : Datum := .mapping ⟨[("xs", .list [.int 1, .int 2])]⟩

/-- The partials after one another do not add up: it needs two levels, and two are enough. -/
theorem limit_is_threshold_nested :
    ∃ t e, Template.parse none nestedSource = .ok t ∧
      Executes (Settings.default.withLimit 2) nestedPartials
        (Task.ofNodes 0 t.nodes (Scope.ofDatum nestedContext)) e ∧
      e.nesting nestedPartials = 2 ∧
      ∀ limit : Int, 2 ≤ limit →
        (renderSource (Settings.default.withLimit limit) nestedPartials none nestedSource
          nestedContext).result.toOption.map Rendering.output = some ("12" : Text) := by
  obtain ⟨t, ht⟩ : ∃ t, Template.parse none nestedSource = .ok t :=
    exists_ok_of_isOk (by decide +kernel)
  have hlaw := ((limit_is_threshold .default nestedPartials nestedContext).2 none nestedSource).1 t ht
  obtain ⟨e, he, -⟩ := hlaw.executes 2
  have htwo : (renderSource (Settings.default.withLimit 2) nestedPartials none nestedSource
      nestedContext).result.toOption.map Rendering.output = some ("12" : Text) := by decide +kernel
  have hone : (renderSource (Settings.default.withLimit 1) nestedPartials none nestedSource
      nestedContext).result.toOption = none := by decide +kernel
  obtain ⟨r, hr⟩ : ∃ r, (renderSource (Settings.default.withLimit 2) nestedPartials none nestedSource
      nestedContext).result = .ok r := exists_ok_of_isOk (by decide +kernel)
  have hthreshold := hlaw.threshold 2 e r he hr
  have hle : e.nesting nestedPartials ≤ 2 := by
    by_contra hlt
    obtain ⟨name, location, hdeep⟩ := hthreshold.below 2 (by decide) (by omega)
    rw [hr] at hdeep
    cases hdeep
  have hge : ¬ e.nesting nestedPartials ≤ 1 := by
    intro hle
    rw [hthreshold.above 1 (by omega), hr] at hone
    cases hone
  refine ⟨t, e, ht, he, by omega, fun limit hlimit => ?_⟩
  rw [hthreshold.above limit (by omega)]
  exact htwo

end Render
end Stencil
