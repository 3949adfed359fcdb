import Stencil.Proofs.Files.Walk
/-! What making directories changes, and when it succeeds. -/
namespace Stencil.FileTree

variable {t t' t'' : FileTree} {p q : Place} {e : Entry} {path : FilePath} {places more : List Place}

theorem find?_replaced (hq : q ≠ p) (e : Entry) (es : List (Place × Entry)) :
    (es.map fun old => if old.1 = p then (p, e) else old).find? (fun old => old.1 = q) =
      es.find? fun old => old.1 = q := by
  induction es with
  | nil => rfl
  | cons old es ih =>
    rw [List.map_cons, List.find?_cons, List.find?_cons, ih]
    by_cases hp : old.1 = p
    · simp [hp, hq.symm]
    · simp [hp]

theorem find?_replaced_self (e : Entry) {es : List (Place × Entry)}
    (h : es.any fun old => old.1 = p) :
    (es.map fun old => if old.1 = p then (p, e) else old).find? (fun old => old.1 = p) =
      some (p, e) := by
  induction es with
  | nil => cases h
  | cons old es ih =>
    rw [List.map_cons, List.find?_cons]
    by_cases hp : old.1 = p
    · simp [hp]
    · simpa [hp] using ih (by simpa [hp] using h)

/-- An entry that is put is found at its place, and every other place has what it had. -/
theorem entry?_put (hp : p ≠ []) (q : Place) :
    entry? (t.put p e) q = if q = p then some e else t.entry? q := by
  by_cases hroot : q = []
  · rw [if_neg (hroot ▸ hp.symm), hroot]
    rfl
  · unfold entry? put
    simp only [List.isEmpty_iff, hroot, if_false]
    by_cases hany : t.entries.any fun old => old.1 = p
    · rw [if_pos hany]
      split
      · next hq => rw [hq, find?_replaced_self e hany]; rfl
      · next hq => rw [find?_replaced hq]
    · rw [if_neg hany, List.find?_append]
      split
      · next hq =>
        have hnone : t.entries.find? (fun old => old.1 = p) = none := by
          rw [List.find?_eq_none]
          exact fun old hold hsame => hany (List.any_eq_true.2 ⟨old, hold, hsame⟩)
        simp [hnone, hq]
      · next hq => simp [Ne.symm hq]

theorem ne_nil_of_isDirectoryAt (h : t.isDirectoryAt p = false) : p ≠ [] := by
  rintro rfl
  cases h

/-- A tree with more directories: some of the places that had no entry are directories now. -/
structure Grows (places : List Place) (t t' : FileTree) : Prop where
  home : t'.home = t.home
  entry : ∀ q, entry? t' q = t.entry? q ∨
    q ∈ places ∧ t.entry? q = none ∧ entry? t' q = some .directory

namespace Grows

theorem refl (places : List Place) (t : FileTree) : Grows places t t := ⟨rfl, fun _ => .inl rfl⟩

theorem trans (h : Grows places t t') (h' : Grows places t' t'') : Grows places t t'' := by
  refine ⟨h'.home.trans h.home, fun q => ?_⟩
  rcases h'.entry q with hsame' | ⟨hq, hnone, hdirectory⟩
  · rw [hsame']
    exact h.entry q
  · rcases h.entry q with hsame | ⟨-, -, hmade⟩
    · exact .inr ⟨hq, hsame ▸ hnone, hdirectory⟩
    · rw [hmade] at hnone
      cases hnone

theorem mono (h : Grows places t t') (hsub : places ⊆ more) : Grows more t t' :=
  ⟨h.home, fun q => (h.entry q).imp id fun ⟨hq, hrest⟩ => ⟨hsub hq, hrest⟩⟩

theorem isDirectoryAt (h : Grows places t t') (hp : t.isDirectoryAt p) : t'.isDirectoryAt p := by
  rcases h.entry p with hsame | ⟨-, -, hmade⟩
  · rw [FileTree.isDirectoryAt, hsame]
    exact hp
  · simp [FileTree.isDirectoryAt, hmade]

theorem isFileAt (h : Grows places t t') (p : Place) : t'.isFileAt p = t.isFileAt p := by
  rcases h.entry p with hsame | ⟨-, hnone, hmade⟩
  · rw [FileTree.isFileAt, hsame]
    rfl
  · simp [FileTree.isFileAt, hnone, hmade]

end Grows

theorem grows_put (h : t.entry? p = none) : Grows [p] t (t.put p .directory) := by
  have hp : p ≠ [] := ne_nil_of_isDirectoryAt (t := t) (by simp [isDirectoryAt, h])
  refine ⟨rfl, fun q => ?_⟩
  rw [entry?_put hp]
  split
  · next hq => exact .inr ⟨hq ▸ List.mem_cons_self, hq ▸ h, rfl⟩
  · exact .inl rfl

/-- A path has become a directory, and with it every place that it leads through. None of them was a
file, and nothing else has changed. -/
structure Made (path : FilePath) (t t' : FileTree) : Prop where
  fits : path.Fits
  noFile : ∀ s ∈ t.stops path, t.isFileAt s = false
  grows : Grows (t.stops path) t t'
  directories : ∀ s ∈ t.stops path, t'.isDirectoryAt s

theorem isFileAt_of_isDirectoryAt (h : t.isDirectoryAt p) : t.isFileAt p = false := by
  simp only [isDirectoryAt, decide_eq_true_eq] at h
  simp [isFileAt, h]

/-- A directory that is there, or is put where nothing is. -/
theorem Leads.made (h : t.Leads path) (hfile : t.isFileAt (t.reach path) = false)
    (hgrows : Grows [t.reach path] t t') (hmade : t'.isDirectoryAt (t.reach path)) :
    Made path t t' := by
  refine ⟨h.fits, ?_, hgrows.mono (List.subset_append_right _ _), ?_⟩
  · intro s hs
    rcases List.mem_append.1 hs with hs | hs
    · exact isFileAt_of_isDirectoryAt (h.way s hs)
    · exact List.mem_singleton.1 hs ▸ hfile
  · intro s hs
    rcases List.mem_append.1 hs with hs | hs
    · exact hgrows.isDirectoryAt (h.way s hs)
    · exact List.mem_singleton.1 hs ▸ hmade

/-- What making one directory can do: it is there in the end, or nothing has changed. Where the path
fits and leads through no file, it fails only for a directory on its way that is missing. -/
theorem makeOne_cases (t : FileTree) (path : FilePath) :
    (∃ t', t.makeOne path = (t', none) ∧ Made path t t') ∨
    (∃ problem, t.makeOne path = (t, some (.system problem path.text)) ∧
      (path.Fits → (∀ s ∈ t.stops path, t.isFileAt s = false) →
        problem = .notFound ∧ ¬ t.Leads path)) ∨
    ∃ fault, path.fault? = some fault ∧ t.makeOne path = (t, some (.path fault)) := by
  unfold makeOne
  rcases t.locate_cases path with ⟨fault, hfault⟩ | ⟨hnone, hleads, hlocate⟩ |
    ⟨hnone, hnot, problem, hlocate⟩
  · exact .inr (.inr ⟨fault, hfault, by simp [hfault]⟩)
  · simp only [hnone, hlocate]
    cases hentry : t.entry? (t.reach path) with
    | none =>
      have hroot : t.reach path ≠ [] :=
        ne_nil_of_isDirectoryAt (t := t) (by simp [isDirectoryAt, hentry])
      exact .inl ⟨_, rfl, hleads.made (by simp [isFileAt, hentry]) (grows_put hentry)
        (by simp [isDirectoryAt, entry?_put hroot])⟩
    | some e =>
      cases e with
      | directory =>
        have hreach : t.isDirectoryAt (t.reach path) := by simp [isDirectoryAt, hentry]
        exact .inl ⟨t, rfl, hleads.made (isFileAt_of_isDirectoryAt hreach) (.refl _ t) hreach⟩
      | file content =>
        refine .inr (.inl ⟨_, rfl, fun _ hfile => ?_⟩)
        have hreach := hfile _ (t.reach_mem_stops path)
        simp [isFileAt, hentry] at hreach
  · simp only [hnone, hlocate]
    refine .inr (.inl ⟨problem, rfl, fun hfits hfile => ⟨?_, hnot⟩⟩)
    rcases locate_of_no_file hfits fun s hs => hfile s (t.way_subset_stops path hs) with hok | hmissing
    · rw [hlocate] at hok
      cases hok
    · exact Except.error.inj (hlocate.symm.trans hmissing)

/-- What is made below directories that were made before. -/
theorem Made.after {above : FilePath} (h : Made above t t') (h' : Made path t' t'')
    (hsub : t.stops above ⊆ t.stops path) : Made path t t'' := by
  refine ⟨h'.fits, ?_, (h.grows.mono hsub).trans (stops_congr h.grows.home path ▸ h'.grows), ?_⟩
  · intro s hs
    rw [← h.grows.isFileAt s]
    exact h'.noFile s (stops_congr h.grows.home path ▸ hs)
  · exact fun s hs => h'.directories s (stops_congr h.grows.home path ▸ hs)

/-- How an attempt on a path ends: it is done, or the file system refuses what is not possible, or
the path can be none. In the last two cases it may be done in part. -/
inductive Attempt (path : FilePath) (possible : Prop) (done partly : FileTree → Prop) :
    FileTree × Option FileError → Prop
  | done {t : FileTree} (hdone : done t) : Attempt path possible done partly (t, none)
  | refused {t : FileTree} {problem : FileProblem} {place : Text} (hnot : ¬ possible)
      (hpartly : partly t) : Attempt path possible done partly (t, some (.system problem place))
  | barred {t : FileTree} {fault : FilePath.Fault} (hfault : path.fault? ≠ none)
      (hpartly : partly t) : Attempt path possible done partly (t, some (.path fault))

/-- Below directories that were made, one more is missing nothing. -/
theorem Made.attempt_makeOne (h : Made path.parent t t') (hpath : path.names ≠ []) :
    Attempt path (path.Fits ∧ ∀ s ∈ t.stops path, t.isFileAt s = false) (Made path t)
      (Grows (t.stops path) t) (t'.makeOne path) := by
  have hway : t.way path = t.stops path.parent := t.way_eq_stops_parent hpath
  have hsub : t.stops path.parent ⊆ t.stops path := hway ▸ t.way_subset_stops path
  have hgrows := h.grows.mono hsub
  rcases makeOne_cases t' path with ⟨t'', heq, hmade⟩ | ⟨problem, heq, hwhy⟩ | ⟨fault, hfault, heq⟩
  · exact heq ▸ .done (h.after hmade hsub)
  · refine heq ▸ .refused ?_ hgrows
    rintro ⟨hfits, hfile⟩
    refine (hwhy hfits fun s hs => ?_).2 ⟨hfits, fun s hs => ?_⟩
    · rw [hgrows.isFileAt]
      exact hfile s (stops_congr hgrows.home path ▸ hs)
    · rw [way_congr hgrows.home path, hway] at hs
      exact h.directories s hs
  · exact heq ▸ .barred (hfault ▸ Option.some_ne_none fault) hgrows

/-- A directory with those above it can be made if the path fits and leads through no file. -/
theorem attempt_makeFrom (t : FileTree) (anchor : Text) (names : List Text) {path : FilePath}
    (hpath : ⟨anchor, names.reverse⟩ = path) :
    Attempt path (path.Fits ∧ ∀ s ∈ t.stops path, t.isFileAt s = false) (Made path t)
      (Grows (t.stops path) t) (t.makeFrom anchor names) := by
  induction names generalizing path with
  | nil =>
    subst hpath
    rw [makeFrom]
    rcases makeOne_cases t ⟨anchor, []⟩ with ⟨t', heq, hmade⟩ | ⟨problem, heq, hwhy⟩ |
      ⟨fault, hfault, heq⟩
    · exact heq ▸ .done hmade
    · exact heq ▸ .refused (fun ⟨hfits, hfile⟩ => (hwhy hfits hfile).2 ⟨hfits, nofun⟩) (.refl _ t)
    · exact heq ▸ .barred (hfault ▸ Option.some_ne_none fault) (.refl _ t)
  | cons name above ih =>
    have hparent : (⟨anchor, above.reverse⟩ : FilePath) = path.parent := by
      simp [← hpath, FilePath.parent]
    have hnames : path.names ≠ [] := by simp [← hpath]
    have hsub : t.stops path.parent ⊆ t.stops path :=
      t.way_eq_stops_parent hnames ▸ t.way_subset_stops path
    rw [makeFrom, hpath]
    rcases makeOne_cases t path with ⟨t', heq, hmade⟩ | ⟨problem, heq, hwhy⟩ | ⟨fault, hfault, heq⟩
    · simp only [heq]
      exact .done hmade
    · simp only [heq]
      split
      · next hsystem =>
        obtain ⟨rfl, -⟩ := Prod.mk.inj hsystem
        generalize hmake : t.makeFrom anchor above = result
        have habove := hmake ▸ ih hparent
        cases habove with
        | done hmade => exact hmade.attempt_makeOne hnames
        | barred hfault hgrows => exact .barred (mt FilePath.fault?_parent hfault) (hgrows.mono hsub)
        | refused hnot hgrows =>
          refine .refused ?_ (hgrows.mono hsub)
          rintro ⟨hfits, hfile⟩
          exact hnot ⟨hfits.parent, fun s hs => hfile s (hsub hs)⟩
      · next hother =>
        refine .refused ?_ (.refl _ t)
        rintro ⟨hfits, hfile⟩
        obtain ⟨rfl, -⟩ := hwhy hfits hfile
        exact hother t _ rfl
    · simp only [heq]
      exact .barred (hfault ▸ Option.some_ne_none fault) (.refl _ t)

theorem attempt_makeDirectories (t : FileTree) (path : FilePath) :
    Attempt path (path.Fits ∧ ∀ s ∈ t.stops path, t.isFileAt s = false) (Made path t)
      (Grows (t.stops path) t) (t.makeDirectories path) :=
  t.attempt_makeFrom path.anchor path.names.reverse (by rw [List.reverse_reverse])

end Stencil.FileTree
