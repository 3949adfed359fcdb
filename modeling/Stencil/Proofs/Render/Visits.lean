import Stencil.Proofs.Render.Steps
/-! What the visits of an execution tell: which of them a failure ends with, which of them leave
warnings, and where their nodes come from. -/
namespace Stencil

/-- The warning that a visit leaves: an inclusion of a name that is not registered leaves one, and
nothing else does. -/
def Visit.missing? (partials : Partials) (v : Visit) : Option Warning :=
  match v.node with
  | .leaf location (.inclusion name) =>
    match partials.get? name with
    | none => some ⟨name, location⟩
    | some _ => none
  | _ => none

variable {settings settings' : Settings} {partials : Partials} {t : Task} {ts : List Task}
  {a b e : Execution} {f : RenderFailure}

namespace Trace

variable {c d : Trace}

theorem warnings_append_of_none (h : c.failure = none) (d : Trace) :
    (c ++ d).warnings = c.warnings ++ d.warnings := by
  rw [append_of_none h, warnings, List.filterMap_append]
  rfl

@[simp] theorem warnings_wrote (text : Text) : (wrote text).warnings = [] := by
  unfold wrote
  split <;> rfl

@[simp] theorem warnings_attempt (text : Except ValueFault Text) : (attempt text).warnings = [] := by
  cases text with
  | error fault => rfl
  | ok text => exact warnings_wrote text

theorem failure_attempt {text : Except ValueFault Text} (h : (attempt text).failure = some f) :
    ∃ fault, f = .unusable fault := by
  cases text with
  | error fault => exact ⟨fault, (Option.some.inj h).symm⟩
  | ok text =>
    rw [attempt, failure_wrote] at h
    cases h

end Trace

namespace Task

/-- A task is an inclusion, or by itself it writes text or finds a value that it cannot use. -/
theorem step_cases (settings : Settings) (partials : Partials) (t : Task) :
    (∃ location name, t.visit.node = .leaf location (.inclusion name) ∧
      t.step settings partials = inclusion settings partials t.visit.depth t.scope name location) ∨
    (∀ location name, t.visit.node ≠ .leaf location (.inclusion name)) ∧
      ∃ text, (t.step settings partials).1 = .attempt text := by
  obtain ⟨⟨depth, node⟩, s⟩ := t
  cases node with
  | each location path body => exact .inr ⟨by simp, .ok [], rfl⟩
  | cond location path body elseBody => exact .inr ⟨by simp, .ok [], rfl⟩
  | leaf location l =>
    cases l with
    | inclusion name => exact .inl ⟨location, name, rfl, rfl⟩
    | text content => exact .inr ⟨by simp, .ok content, rfl⟩
    | value path => exact .inr ⟨by simp, _, rfl⟩
    | markdown inline path => cases inline <;> exact .inr ⟨by simp, _, rfl⟩
    | json path =>
      simp only [step, Render.leaf]
      split
      · exact .inr ⟨by simp, .ok [], rfl⟩
      · exact .inr ⟨by simp, _, rfl⟩

/-- Only an inclusion of a name that is not registered leaves a warning. -/
theorem warnings_step (t : Task) :
    (t.step settings partials).1.warnings = (t.visit.missing? partials).toList := by
  rcases t.step_cases settings partials with
    ⟨location, name, hnode, hstep⟩ | ⟨hnode, text, hstep⟩
  · simp only [hstep, Visit.missing?, hnode, inclusion]
    cases hp : partials.get? name with
    | none => rfl
    | some source =>
      cases source with
      | nil => rfl
      | cons c source =>
        dsimp only
        split
        · rfl
        · split <;> rfl
  · rw [hstep, Trace.warnings_attempt]
    unfold Visit.missing?
    split
    · next location name h => exact absurd h (hnode location name)
    · rfl

/-- Only an inclusion fails for a template that is not well-formed, and it is its own partial. -/
theorem exists_inclusion_of_malformed {e : SyntaxError}
    (h : (t.step settings partials).1.failure = some (.malformed e)) :
    ∃ location name source, t.visit.node = .leaf location (.inclusion name) ∧
      partials.get? name = some source ∧ Template.parse (some name) source = .error e := by
  rcases t.step_cases settings partials with
    ⟨location, name, hnode, hstep⟩ | ⟨-, text, hstep⟩
  · rw [hstep] at h
    generalize hf : RenderFailure.malformed e = f at h
    cases refused_of_inclusion h with
    | noRoom =>
      rcases Render.noRoom_cases settings with ⟨limit, h⟩ | ⟨fault, h⟩ <;> rw [h] at hf <;> cases hf
    | malformed hsource _ hparse =>
      obtain rfl := RenderFailure.malformed.inj hf
      exact ⟨location, name, _, hnode, hsource, hparse⟩
  · rw [hstep] at h
    obtain ⟨fault, hfault⟩ := Trace.failure_attempt h
    cases hfault

end Task

theorem Execution.mem_visits_append {v : Visit} :
    v ∈ (a ++ b).visits ↔ v ∈ a.visits ∨ a.trace.failure = none ∧ v ∈ b.visits := by
  cases ha : a.trace.failure with
  | some f => simp [Execution.append_of_failure, ha]
  | none => simp [Execution.append_of_none, ha]

namespace Executes

/-- What holds of each task by itself, and of two executions one after the other if it holds of the
first and of the second where that is begun, holds of every execution. -/
theorem induction {Q : Execution → Prop} (hempty : Q .empty)
    (hown : ∀ t : Task, Q (t.own settings partials))
    (happend : ∀ {a b}, Q a → (a.trace.failure = none → Q b) → Q (a ++ b))
    (h : Executes settings partials ts e) : Q e := by
  induction h with
  | nil => exact hempty
  | @cons t ts below after _ _ ihbelow ihafter =>
    exact happend (happend (hown t) ihbelow) ihafter

/-- The warnings of an execution are those of its visits, in order. -/
theorem warnings_eq (h : Executes settings partials ts e) :
    e.trace.warnings = e.visits.filterMap (Visit.missing? partials) := by
  refine induction (Q := fun e => e.trace.warnings = e.visits.filterMap (Visit.missing? partials)) rfl
    ?_ ?_ h
  · intro t
    rw [Task.own, Task.warnings_step, List.filterMap_cons, List.filterMap_nil]
    cases t.visit.missing? partials <;> rfl
  · intro a b ha hb
    cases hf : a.trace.failure with
    | some f => rwa [Execution.append_of_failure (by simp [hf])]
    | none =>
      rw [Execution.append_of_none hf, Trace.warnings_append_of_none hf, List.filterMap_append, ha,
        hb hf]

/-- The last visit of an execution that fails is that of the task that fails. -/
theorem exists_last_of_failure (h : Executes settings partials ts e)
    (hf : e.trace.failure = some f) :
    ∃ t : Task, e.visits.getLast? = some t.visit ∧
      (t.step settings partials).1.failure = some f := by
  revert hf
  refine induction (Q := fun e => e.trace.failure = some f → ∃ t : Task,
    e.visits.getLast? = some t.visit ∧ (t.step settings partials).1.failure = some f) ?_ ?_ ?_ h
  · exact nofun
  · exact fun t hf => ⟨t, rfl, hf⟩
  · intro a b ha hb hf
    cases hnone : a.trace.failure with
    | some g =>
      rw [Execution.append_of_failure (by simp [hnone])] at hf ⊢
      exact ha hf
    | none =>
      rw [Execution.trace_append, Trace.failure_append_of_none hnone] at hf
      obtain ⟨t, hlast, ht⟩ := hb hnone hf
      refine ⟨t, ?_, ht⟩
      rw [Execution.append_of_none hnone, List.getLast?_append, hlast]
      rfl

/-- A property of tasks that is passed on wherever a visit in `V` calls for more tasks holds of
every task of an execution whose visits are all in `V`. -/
theorem exists_task_of_visit {V : Visit → Prop} {I : Task → Prop}
    (hnext : ∀ t, I t → V t.visit → ∀ u ∈ (t.step settings partials).2, I u)
    (h : Executes settings partials ts e) (hts : ∀ t ∈ ts, I t) (hV : ∀ v ∈ e.visits, V v) :
    ∀ v ∈ e.visits, ∃ t : Task, I t ∧ t.visit = v := by
  induction h with
  | nil => exact nofun
  | @cons t ts below after _ _ ihbelow ihafter =>
    simp only [Execution.mem_visits_append] at hV ⊢
    obtain ⟨ht, hts⟩ := List.forall_mem_cons.1 hts
    rintro v ((hv | ⟨hown, hv⟩) | ⟨hfront, hv⟩)
    · exact ⟨t, ht, (List.mem_singleton.1 hv).symm⟩
    · have htV : V t.visit := hV _ (.inl (.inl List.mem_cons_self))
      exact ihbelow hown (hnext t ht htV) (fun v hv => hV v (.inl (.inr ⟨hown, hv⟩))) v hv
    · exact ihafter hfront hts (fun v hv => hV v (.inr ⟨hfront, hv⟩)) v hv

end Executes
end Stencil
