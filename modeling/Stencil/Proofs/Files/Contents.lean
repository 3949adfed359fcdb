import Mathlib.Data.List.Pairwise
import Mathlib.Logic.Function.Basic
import Stencil.Proofs.Files.Write
/-! The regular files of a tree with their contents: what is written changes one of them, and making
directories changes none. -/
namespace Stencil.FileTree

variable {t t' t'' : FileTree} {p q : Place} {path target : FilePath} {places : List Place}
  {content : Bytes}

/-- The contents of the regular files, by their places. -/
def files (t : FileTree) (p : Place) : Option Bytes :=
  match t.entry? p with
  | some (.file content) => some content
  | _ => none

/-- Files with others written over them, one after the other. -/
def overwrite (files : Place → Option Bytes) (ws : List (Place × Bytes)) : Place → Option Bytes :=
  ws.foldl (fun files w => Function.update files w.1 (some w.2)) files

theorem overwrite_append (files : Place → Option Bytes) (ws ws' : List (Place × Bytes)) :
    overwrite files (ws ++ ws') = overwrite (overwrite files ws) ws' := List.foldl_append

/-- What becomes of a place does not depend on what other places had before. -/
theorem overwrite_congr {files files' : Place → Option Bytes} (h : files p = files' p)
    (ws : List (Place × Bytes)) : overwrite files ws p = overwrite files' ws p := by
  induction ws generalizing files files' with
  | nil => exact h
  | cons w ws ih =>
    refine ih ?_
    show Function.update files w.1 (some w.2) p = Function.update files' w.1 (some w.2) p
    rw [Function.update_apply, Function.update_apply, h]

/-- Files at different places can be written in any order. -/
theorem overwrite_perm {ws ws' : List (Place × Bytes)} (h : ws.Perm ws')
    (hplaces : ws.Pairwise fun w w' => w.1 ≠ w'.1) (files : Place → Option Bytes) :
    overwrite files ws = overwrite files ws' := by
  refine h.foldl_eq' ?_ files
  intro w hw w' hw' files
  by_cases hsame : w = w'
  · rw [hsame]
  · have hsymm : Std.Symm fun w w' : Place × Bytes => w.1 ≠ w'.1 := ⟨fun _ _ => Ne.symm⟩
    have hne : w.1 ≠ w'.1 := hplaces.forall hw hw' hsame
    exact Function.update_comm hne _ _ files

theorem Grows.files_eq (h : Grows places t t') : t'.files = t.files := by
  funext q
  rcases h.entry q with hsame | ⟨-, hnone, hmade⟩
  · rw [FileTree.files, hsame]
    rfl
  · simp [FileTree.files, hnone, hmade]

/-- A file that is written is the only one that changes. -/
theorem Written.files_eq (h : Written target content t t') :
    t'.files = Function.update t.files (t.reach target) (some content) := by
  funext q
  by_cases hq : q = t.reach target
  · subst hq
    obtain ⟨-, hfound⟩ := lookup_eq_some_iff.1 h.found
    rw [reach_congr h.disturbs.home] at hfound
    simp [FileTree.files, hfound]
  · rw [Function.update_of_ne hq]
    rcases h.disturbs.entry q hq with hsame | ⟨-, hnone, hmade⟩
    · rw [FileTree.files, hsame]
      rfl
    · simp [FileTree.files, hnone, hmade]

/-- A tree in which all directories of another one still are. -/
structure Retains (t t' : FileTree) : Prop where
  home : t'.home = t.home
  directory : ∀ p, t.isDirectoryAt p → t'.isDirectoryAt p

namespace Retains

theorem refl (t : FileTree) : Retains t t := ⟨rfl, fun _ => id⟩

theorem trans (h : Retains t t') (h' : Retains t' t'') : Retains t t'' :=
  ⟨h'.home.trans h.home, fun p hp => h'.directory p (h.directory p hp)⟩

/-- A path that leads to its place keeps leading there. -/
theorem leads (h : Retains t t') (hpath : t.Leads path) : t'.Leads path := by
  refine ⟨hpath.fits, ?_⟩
  rw [way_congr h.home]
  exact fun s hs => h.directory s (hpath.way s hs)

end Retains

theorem Grows.retains (h : Grows places t t') : Retains t t' := ⟨h.home, fun _ => h.isDirectoryAt⟩

theorem Written.retains (h : Written target content t t') : Retains t t' := by
  refine ⟨h.disturbs.home, fun p hp => ?_⟩
  have hne : p ≠ t.reach target := by
    rintro rfl
    exact Bool.false_ne_true (h.writable.noDirectory.symm.trans hp)
  rcases h.disturbs.entry p hne with hsame | ⟨-, -, hmade⟩
  · rw [isDirectoryAt, hsame]
    exact hp
  · simp [isDirectoryAt, hmade]

theorem Leads.locate_eq (h : t.Leads path) : t.locate path = .ok (t.reach path) :=
  locate_eq_ok_iff.2 ⟨h.fits.text, h.fits.names, h.way, rfl⟩

theorem Written.leads (h : Written target content t t') : t'.Leads target :=
  (lookup_eq_some_iff.1 h.found).1

end Stencil.FileTree
