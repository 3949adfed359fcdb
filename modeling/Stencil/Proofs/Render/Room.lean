import Stencil.Proofs.Render.Compatible
import Stencil.Proofs.Template.Reachable
/-! Inclusions and the room below them: more room changes only the failures for lack of it. -/
namespace Stencil.Render

variable {settings : Settings} {partials : Partials} {room : Nat} {s s' : Scope}
  {name source : Text} {location : Location} {i j : Inclusion} {l : Leaf} {R : Trace → Trace → Prop}

theorem noRoom_of_limit {limit : Limit} (h : settings.limit = .ok limit) (hroom : limit.room?.isSome)
    (name : Text) (location : Location) :
    noRoom settings name location = .tooDeep name location limit := by
  rw [noRoom, h]
  exact if_pos hroom

/-- For lack of room a render fails everywhere in one of these ways. -/
theorem noRoom_cases (settings : Settings) :
    (∃ limit, ∀ name location, noRoom settings name location = .tooDeep name location limit) ∨
      ∃ fault, ∀ name location, noRoom settings name location = .unusable fault := by
  cases h : settings.limit with
  | error fault => exact .inr ⟨fault, fun _ _ => by rw [noRoom, h]⟩
  | ok limit =>
    by_cases hroom : limit.room?.isSome
    · exact .inl ⟨limit, noRoom_of_limit h hroom⟩
    · exact .inr ⟨.unlimited, fun _ _ => by
        rw [noRoom, h]
        exact if_neg hroom⟩

theorem included_of_missing (h : partials.get? name = none) :
    included settings partials room s name location = .ofEvent (.missing name location) := by
  rw [included, Walk.included, h]

theorem included_of_empty (h : partials.get? name = some []) :
    included settings partials room s name location = .ofEvent (.empty name location) := by
  rw [included, Walk.included, h]

/-- A name stands for what is missing or empty, or for a partial that takes up room. -/
theorem void_or_registered (partials : Partials) (name : Text) :
    (∀ source, partials.get? name = some source → source = []) ∨
      ∃ source, partials.get? name = some source ∧ source ≠ [] := by
  by_cases h : ∀ source, partials.get? name = some source → source = []
  · exact .inl h
  · exact .inr (by simpa using h)

/-- What is missing or empty takes up no room. -/
theorem included_of_void (h : ∀ source, partials.get? name = some source → source = [])
    (settings settings' : Settings) (room room' : Nat) :
    included settings partials room s name location =
      included settings' partials room' s name location := by
  cases hp : partials.get? name with
  | none => rw [included_of_missing hp, included_of_missing hp]
  | some source =>
    obtain rfl := h source hp
    rw [included_of_empty hp, included_of_empty hp]

theorem included_zero (h : partials.get? name = some source) (hs : source ≠ []) :
    included settings partials 0 s name location = .fail (noRoom settings name location) := by
  cases source with
  | nil => exact absurd rfl hs
  | cons c source => simp only [included, Walk.included, h]

theorem included_malformed {e : SyntaxError} (h : partials.get? name = some source)
    (hs : source ≠ []) (hparse : Template.parse (some name) source = .error e) :
    included settings partials (room + 1) s name location = .fail (.malformed e) := by
  cases source with
  | nil => exact absurd rfl hs
  | cons c source => simp only [included, Walk.included, h, hparse]

/-- What an inclusion comes to is the nodes of the partial, with a level less of room. -/
theorem included_parsed {t : Template} (h : partials.get? name = some source)
    (hs : source ≠ []) (hparse : Template.parse (some name) source = .ok t) :
    included settings partials (room + 1) s name location =
      nodes settings (included settings partials room) t.nodes s := by
  cases source with
  | nil => exact absurd rfl hs
  | cons c source =>
    simp only [included, Walk.included, h, hparse]
    rfl

/-- Only an inclusion asks how inclusions run. Any other leaf asks the scope for its path alone. -/
theorem leaf_related (hR : ∀ t, R t t)
    (hresolve : ∀ path, (Lexeme.leaf l).path? = some path → s.resolve path = s'.resolve path)
    (h : ∀ name, l = .inclusion name → R (i s name location) (j s' name location)) :
    R (leaf settings i s location l) (leaf settings j s' location l) := by
  cases l with
  | text content => exact hR _
  | inclusion name => exact h name rfl
  | value path =>
    simp only [leaf, hresolve path rfl]
    exact hR _
  | markdown inline path =>
    cases inline <;> simp only [leaf, hresolve path rfl] <;> exact hR _
  | json path =>
    simp only [leaf, hresolve path rfl]
    exact hR _

/-- The failures of inclusions that there is no room for. -/
def OutOfRoom (settings : Settings) (f : RenderFailure) : Prop :=
  ∃ name location, f = noRoom settings name location

theorem compatible_upToRoom {α β : Type} {seen : Warning → α} {why : RenderFailure → β} :
    Trace.Compatible (Trace.UpTo (OutOfRoom settings) (Trace.Alike seen why)) :=
  Trace.compatible_alike.upTo fun h ha => h.isSome ▸ ha

/-- Settings that leaves cannot tell apart: they differ in the limit and in what is logged, if in
anything. -/
def AlikeInLeaves (settings settings' : Settings) : Prop :=
  ∀ i s location l, leaf settings i s location l = leaf settings' i s location l

section

variable {settings' : Settings} {room' : Nat}

/-- More room changes a course only where it ends for lack of room, if that is so of inclusions. -/
theorem nodes_upToRoom_of_included (hleaf : AlikeInLeaves settings settings')
    (h : ∀ s name location, Trace.UpTo (OutOfRoom settings) Eq
      (included settings partials room s name location)
      (included settings' partials room' s name location))
    (ns : List Node) (s : Scope) :
    Trace.UpTo (OutOfRoom settings) Eq (nodes settings (included settings partials room) ns s)
      (nodes settings' (included settings' partials room') ns s) := by
  have hR : Trace.Compatible (Trace.UpTo (OutOfRoom settings) Eq) :=
    Trace.compatible_eq.upTo fun h ha => h ▸ ha
  have hleaves : ∀ s location l, Trace.UpTo (OutOfRoom settings) Eq
      (leaf settings (included settings partials room) s location l)
      (nodes settings' (included settings' partials room') [.leaf location l] s) := by
    intro s location l
    rw [nodes_single_leaf, ← hleaf]
    exact leaf_related (fun _ => .inr rfl) (fun _ _ => rfl) fun name _ => h s name location
  have hns : Trace.UpTo (OutOfRoom settings) Eq
      (nodes settings (included settings partials room) ns s)
      (nodes settings' (included settings' partials room')
        (Node.replace (fun location l => [.leaf location l]) id ns) s) :=
    nodes_replace hR hleaves ns s
  rwa [Node.replace_self] at hns

theorem included_upToRoom (hleaf : AlikeInLeaves settings settings') (partials : Partials)
    (hroom : room ≤ room') (s : Scope) (name : Text) (location : Location) :
    Trace.UpTo (OutOfRoom settings) Eq (included settings partials room s name location)
      (included settings' partials room' s name location) := by
  induction room generalizing room' s name location with
  | zero =>
    obtain hvoid | ⟨source, h, hs⟩ := void_or_registered partials name
    · exact .inr (included_of_void hvoid settings settings' 0 room')
    · rw [included_zero h hs]
      exact .inl ⟨_, rfl, name, location, rfl⟩
  | succ room ih =>
    obtain ⟨room', rfl⟩ : ∃ k, room' = k + 1 := ⟨room' - 1, by omega⟩
    obtain hvoid | ⟨source, h, hs⟩ := void_or_registered partials name
    · exact .inr (included_of_void hvoid settings settings' (room + 1) (room' + 1))
    · cases hparse : Template.parse (some name) source with
      | error e =>
        rw [included_malformed h hs hparse, included_malformed h hs hparse]
        exact .inr rfl
      | ok t =>
        rw [included_parsed h hs hparse, included_parsed h hs hparse]
        exact nodes_upToRoom_of_included hleaf
          (fun s name location => ih (by omega) s name location) t.nodes s

theorem nodes_upToRoom (hleaf : AlikeInLeaves settings settings') (partials : Partials)
    (hroom : room ≤ room') (ns : List Node) (s : Scope) :
    Trace.UpTo (OutOfRoom settings) Eq (nodes settings (included settings partials room) ns s)
      (nodes settings' (included settings' partials room') ns s) :=
  nodes_upToRoom_of_included hleaf (included_upToRoom hleaf partials hroom) ns s

end

end Stencil.Render
