import Stencil.Proofs.Files.Make
/-! What writing a file with the directories above it changes, when it succeeds, and which files can
be written beside each other. -/
namespace Stencil.FileTree

variable {t t' : FileTree} {p q : Place} {path target other : FilePath} {content : Bytes}

/-- A file can be written at a path that leads to its place, if that is no directory. -/
theorem attempt_writeFile (t : FileTree) (path : FilePath) (content : Bytes) :
    Attempt path (t.Leads path ∧ t.isDirectoryAt (t.reach path) = false)
      (fun t' => (t.Leads path ∧ t.isDirectoryAt (t.reach path) = false) ∧
        t' = t.put (t.reach path) (.file content))
      (fun t' => t' = t) (t.writeFile path content) := by
  unfold writeFile
  rcases t.locate_cases path with ⟨fault, hfault⟩ | ⟨hnone, hleads, hlocate⟩ |
    ⟨hnone, hnot, problem, hlocate⟩
  · rw [hfault]
    exact .barred (hfault ▸ Option.some_ne_none fault) rfl
  · simp only [hnone, hlocate]
    split
    · next hentry =>
      exact .refused (fun h => by simp [isDirectoryAt, hentry] at h) rfl
    · next hentry =>
      exact .done ⟨⟨hleads, by simpa [isDirectoryAt] using hentry⟩, rfl⟩
  · simp only [hnone, hlocate]
    exact .refused (fun h => hnot h.1) rfl

/-- Whether a file can be written at a path after the directories above it are made. -/
structure Writable (t : FileTree) (target : FilePath) : Prop where
  fits : target.Fits
  noFile : ∀ s ∈ t.stops target.parent, t.isFileAt s = false
  noDirectory : t.isDirectoryAt (t.reach target) = false
  apart : t.reach target ∉ t.stops target.parent

/-- All that writing a file with the directories above it may change. -/
structure Disturbs (target : FilePath) (t t' : FileTree) : Prop where
  home : t'.home = t.home
  entry : ∀ q, q ≠ t.reach target → entry? t' q = t.entry? q ∨
    q ∈ t.stops target.parent ∧ t.entry? q = none ∧ entry? t' q = some .directory

/-- A file has been written where it could be, and is found there. -/
structure Written (target : FilePath) (content : Bytes) (t t' : FileTree) : Prop where
  writable : t.Writable target
  disturbs : Disturbs target t t'
  found : t'.lookup target = .ok (some (.file content))

theorem Grows.disturbs (h : Grows (t.stops target.parent) t t') : Disturbs target t t' :=
  ⟨h.home, fun q _ => h.entry q⟩

/-- The file that is put below directories that were made. -/
theorem Made.written (h : Made target.parent t t') (hfits : target.Fits)
    (hreach : t'.isDirectoryAt (t.reach target) = false) (content : Bytes) :
    Written target content t (t'.put (t.reach target) (.file content)) := by
  have hroot : t.reach target ≠ [] := ne_nil_of_isDirectoryAt hreach
  have hput := entry?_put (t := t') (e := .file content) hroot
  have hapart : t.reach target ∉ t.stops target.parent := fun hs =>
    Bool.false_ne_true (hreach.symm.trans (h.directories _ hs))
  have hnoDirectory : t.isDirectoryAt (t.reach target) = false :=
    Bool.eq_false_iff.2 fun hdirectory =>
      Bool.false_ne_true (hreach.symm.trans (h.grows.isDirectoryAt hdirectory))
  have hdisturbs : Disturbs target t (t'.put (t.reach target) (.file content)) := by
    refine ⟨h.grows.home, fun q hq => ?_⟩
    rw [hput, if_neg hq]
    exact h.grows.entry q
  refine ⟨⟨hfits, h.noFile, hnoDirectory, hapart⟩, hdisturbs,
    lookup_eq_some_iff.2 ⟨⟨hfits, ?_⟩, ?_⟩⟩
  · intro s hs
    have hs : s ∈ t.way target := way_congr h.grows.home target ▸ hs
    have hstop := t.way_subset_stops_parent target hs
    have hne : s ≠ t.reach target := fun heq => hapart (heq ▸ hstop)
    have hdirectory := h.directories s hstop
    rw [isDirectoryAt, hput, if_neg hne]
    exact hdirectory
  · have hsame : (t'.put (t.reach target) (.file content)).reach target = t.reach target :=
      reach_congr h.grows.home target
    rw [hsame, hput, if_pos rfl]

/-- A file can be written after the directories above it are made if and only if it is writable. If it
is not, some of the directories may have been made. -/
theorem attempt_saveFile (t : FileTree) (target : FilePath) (content : Bytes) :
    Attempt target (t.Writable target) (Written target content t)
      (Grows (t.stops target.parent) t)
      (t.saveFile target content) := by
  unfold saveFile
  generalize hmake : t.makeDirectories target.parent = result
  have hdirectories := hmake ▸ t.attempt_makeDirectories target.parent
  cases hdirectories with
  | refused hnot hgrows => exact .refused (fun h => hnot ⟨h.fits.parent, h.noFile⟩) hgrows
  | barred hfault hgrows => exact .barred (mt FilePath.fault?_parent hfault) hgrows
  | @done t' hmade =>
    have hgrows := hmade.grows
    show Attempt _ _ _ _ (t'.writeFile target content)
    generalize hwrite : t'.writeFile target content = result
    have hfile := hwrite ▸ t'.attempt_writeFile target content
    cases hfile with
    | barred hfault heq => exact .barred hfault (heq ▸ hgrows)
    | refused hnot heq =>
      refine .refused (fun h => hnot ⟨⟨h.fits, ?_⟩, ?_⟩) (heq ▸ hgrows)
      · intro s hs
        rw [way_congr hgrows.home] at hs
        exact hmade.directories s (t.way_subset_stops_parent target hs)
      · rw [reach_congr hgrows.home]
        rcases hgrows.entry (t.reach target) with hsame | ⟨hreach, -, -⟩
        · simpa [isDirectoryAt, hsame] using h.noDirectory
        · exact absurd hreach h.apart
    | @done t'' hdone =>
      obtain ⟨⟨hleads, hreach⟩, rfl⟩ := hdone
      rw [reach_congr hgrows.home] at hreach ⊢
      exact .done (hmade.written hleads.fits hreach content)

/-- A file at the end of a path holds a text. -/
def HoldsText (t : FileTree) (path : FilePath) (text : Text) : Prop :=
  ∃ content, Utf8.encode text = .ok content ∧ t.lookup path = .ok (some (.file content))

/-- How saving a text ends: as an attempt on the path does, but that a text which has no bytes leaves the
file empty instead of being written. -/
inductive Saved (t : FileTree) (target : FilePath) (text : Text) : FileTree × Option FileError → Prop
  | done {t' : FileTree} {content : Bytes} (hcontent : Utf8.encode text = .ok content)
      (hdone : Written target content t t') : Saved t target text (t', none)
  | refused {t' : FileTree} {problem : FileProblem} {place : Text} (hnot : ¬ t.Writable target)
      (hgrows : Grows (t.stops target.parent) t t') :
      Saved t target text (t', some (.system problem place))
  | barred {t' : FileTree} {fault : FilePath.Fault} (hfault : target.fault? ≠ none)
      (hgrows : Grows (t.stops target.parent) t t') : Saved t target text (t', some (.path fault))
  | emptied {t' : FileTree} {fault : Utf8.EncodeFault} (hcontent : Utf8.encode text = .error fault)
      (hdone : Written target [] t t') : Saved t target text (t', some (.content fault))

theorem saved_saveText (t : FileTree) (target : FilePath) (text : Text) :
    Saved t target text (t.saveText target text) := by
  unfold saveText
  cases hcontent : Utf8.encode text with
  | ok content =>
    dsimp only
    generalize hsave : t.saveFile target content = result
    have hattempt := hsave ▸ t.attempt_saveFile target content
    cases hattempt with
    | done hdone => exact .done hcontent hdone
    | refused hnot hgrows => exact .refused hnot hgrows
    | barred hfault hgrows => exact .barred hfault hgrows
  | error fault =>
    generalize hsave : t.saveFile target [] = result
    have hattempt := hsave ▸ t.attempt_saveFile target []
    cases hattempt with
    | done hdone => exact .emptied hcontent hdone
    | refused hnot hgrows => exact .refused hnot hgrows
    | barred hfault hgrows => exact .barred hfault hgrows

/-- Two files get into each other's way: one is written in the place of the other, or in one that
the other leads through. -/
def Conflict (t : FileTree) (target other : FilePath) : Prop :=
  t.reach target ∈ t.reach other :: t.stops other.parent ∨
    t.reach other ∈ t.reach target :: t.stops target.parent

instance (t : FileTree) (target other : FilePath) : Decidable (t.Conflict target other) :=
  inferInstanceAs (Decidable (_ ∨ _))

theorem conflict_congr (h : t'.home = t.home) (target other : FilePath) :
    t'.Conflict target other ↔ t.Conflict target other := by
  simp only [Conflict, reach_congr h, stops_congr h]

namespace Disturbs

/-- What a file leads through is left alone but for directories that are made. -/
theorem entry_stop (h : Disturbs other t t') (hconflict : ¬ t.Conflict target other)
    (hq : q ∈ t.stops target.parent) : entry? t' q = t.entry? q ∨
      t.entry? q = none ∧ entry? t' q = some .directory := by
  refine (h.entry q ?_).imp id And.right
  rintro rfl
  exact hconflict (.inr (List.mem_cons_of_mem _ hq))

/-- And so is its own place, altogether. -/
theorem entry_reach (h : Disturbs other t t') (hconflict : ¬ t.Conflict target other) :
    entry? t' (t.reach target) = t.entry? (t.reach target) := by
  have hne : t.reach target ≠ t.reach other := fun heq =>
    hconflict (.inl (heq ▸ List.mem_cons_self))
  rcases h.entry (t.reach target) hne with hsame | ⟨hstop, -, -⟩
  · exact hsame
  · exact absurd (.inl (List.mem_cons_of_mem _ hstop)) hconflict

/-- Another file without a conflict leaves a file writable. -/
theorem writable (h : Disturbs other t t') (hconflict : ¬ t.Conflict target other)
    (htarget : t.Writable target) : t'.Writable target := by
  refine ⟨htarget.fits, ?_, ?_, ?_⟩
  · rw [stops_congr h.home]
    intro s hs
    rcases h.entry_stop hconflict hs with hsame | ⟨-, hmade⟩
    · simpa [isFileAt, hsame] using htarget.noFile s hs
    · simp [isFileAt, hmade]
  · rw [reach_congr h.home, isDirectoryAt, h.entry_reach hconflict]
    exact htarget.noDirectory
  · rw [reach_congr h.home, stops_congr h.home]
    exact htarget.apart

/-- And it leaves the file that was written. -/
theorem lookup (h : Disturbs other t t') (hconflict : ¬ t.Conflict target other)
    (hfound : t.lookup target = .ok (some (.file content))) :
    t'.lookup target = .ok (some (.file content)) := by
  obtain ⟨hleads, hfile⟩ := lookup_eq_some_iff.1 hfound
  refine lookup_eq_some_iff.2 ⟨⟨hleads.fits, ?_⟩, ?_⟩
  · rw [way_congr h.home]
    intro s hs
    have hdirectory := hleads.way s hs
    rcases h.entry_stop hconflict (t.way_subset_stops_parent target hs) with hsame | ⟨-, hmade⟩
    · rwa [isDirectoryAt, hsame]
    · simp [isDirectoryAt, hmade]
  · rw [reach_congr h.home, h.entry_reach hconflict, hfile]

end Disturbs

end Stencil.FileTree
