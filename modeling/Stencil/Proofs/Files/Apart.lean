import Stencil.Proofs.Files.Contents
/-! Files below one directory, none of which is to stand above another: whether one of them can be
written does not depend on whether another one was written before. -/
namespace Stencil

namespace FilePath

variable {base p q : FilePath}

/-- Whether a path is that of a directory above another one, or is the same. Names are compared as
directories spell them. -/
def IsAbove (p q : FilePath) : Prop := p.anchor = q.anchor ∧ p.entryNames <+: q.entryNames

instance (p q : FilePath) : Decidable (p.IsAbove q) := inferInstanceAs (Decidable (_ ∧ _))

/-- Names of characters are compared as they are. -/
theorem isAbove_iff_of_characters (hp : ∀ name ∈ p.names, ∀ c ∈ name, c.isSurrogate = false)
    (hq : ∀ name ∈ q.names, ∀ c ∈ name, c.isSurrogate = false) :
    p.IsAbove q ↔ p.anchor = q.anchor ∧ p.names <+: q.names := by
  rw [IsAbove, entryNames_of_characters hp, entryNames_of_characters hq]

/-- A relative path that never leads up. -/
structure Descends (p : FilePath) : Prop where
  relative : p.isAbsolute = false
  down : FileTree.parentName ∉ p.names

instance (p : FilePath) : Decidable p.Descends :=
  decidable_of_iff (p.isAbsolute = false ∧ FileTree.parentName ∉ p.names)
    ⟨fun h => ⟨h.1, h.2⟩, fun h => ⟨h.relative, h.down⟩⟩

theorem Descends.join_eq (h : p.Descends) (base : FilePath) :
    base.join p = ⟨base.anchor, base.names ++ p.names⟩ := by
  rw [join, h.relative]
  rfl

theorem Descends.entryNames_join (h : p.Descends) (base : FilePath) :
    (base.join p).entryNames = base.entryNames ++ p.entryNames := by
  rw [h.join_eq]
  exact List.map_append

theorem Descends.notMem_entryNames (h : p.Descends) : FileTree.parentName ∉ p.entryNames := by
  intro hmem
  obtain ⟨name, hname, hspelled⟩ := List.mem_map.1 hmem
  exact h.down (spelled_eq_parentName_iff.1 hspelled ▸ hname)

theorem isAbove_join_iff (hp : p.Descends) (hq : q.Descends) :
    (base.join p).IsAbove (base.join q) ↔ p.entryNames <+: q.entryNames := by
  rw [IsAbove, hp.entryNames_join, hq.entryNames_join, List.prefix_append_right_inj, hp.join_eq,
    hq.join_eq]
  exact and_iff_right rfl

end FilePath

namespace FileTree

variable {t t' : FileTree} {base p q target other : FilePath} {start s : Place}
  {names : List Text} {content : Bytes}

theorem destination_of_down (h : parentName ∉ names) (start : Place) :
    destination start names = start ++ names := by
  induction names generalizing start with
  | nil => exact (List.append_nil start).symm
  | cons name names ih =>
    obtain ⟨hname, hnames⟩ := not_or.1 (List.mem_cons.not.1 h)
    rw [destination, List.foldl_cons, advance, if_neg (Ne.symm hname)]
    exact (ih hnames (start ++ [name])).trans (List.append_assoc start [name] names)

/-- Names that lead down pass the directories above the place that they lead to. -/
theorem exists_prefix_of_mem_passed (h : parentName ∉ names) (hs : s ∈ passed start names) :
    ∃ front, front <+: names ∧ front ≠ names ∧ s = start ++ front := by
  induction names generalizing start with
  | nil => cases hs
  | cons name names ih =>
    obtain ⟨hname, hnames⟩ := not_or.1 (List.mem_cons.not.1 h)
    rcases List.mem_cons.1 hs with rfl | hs
    · exact ⟨[], List.nil_prefix, nofun, (List.append_nil s).symm⟩
    · rw [advance, if_neg (Ne.symm hname)] at hs
      obtain ⟨front, hprefix, hne, rfl⟩ := ih hnames hs
      exact ⟨name :: front, List.cons_prefix_cons.2 ⟨rfl, hprefix⟩, by simpa using hne, by simp⟩

theorem reach_join (hp : p.Descends) (t : FileTree) (base : FilePath) :
    t.reach (base.join p) = t.reach base ++ p.entryNames := by
  have hstart : t.start (base.join p) = t.start base := by
    rw [hp.join_eq]
    rfl
  rw [reach, hstart, hp.entryNames_join, destination, List.foldl_append]
  exact destination_of_down hp.notMem_entryNames _

/-- A path below a directory leads through what the directory leads through, and then through the
directories between the two. -/
theorem stops_parent_join (hp : p.Descends) (hne : p.names ≠ []) (t : FileTree) (base : FilePath) :
    t.stops (base.join p).parent = t.way base ++ passed (t.reach base) p.entryNames := by
  have hnames : (base.join p).names ≠ [] := by
    rw [hp.join_eq]
    exact List.append_ne_nil_of_right_ne_nil _ hne
  have hstart : t.start (base.join p) = t.start base := by
    rw [hp.join_eq]
    rfl
  rw [← t.way_eq_stops_parent hnames, way, hstart, hp.entryNames_join]
  exact passed_append (t.start base) base.entryNames p.entryNames

/-- Two files that are not written in one place, and each of which leads through the place of the
other only if that one leads through it itself. -/
structure Apart (t : FileTree) (target other : FilePath) : Prop where
  places : t.reach target ≠ t.reach other
  stops : t.reach target ∈ t.stops other.parent → t.reach target ∈ t.stops target.parent
  others : t.reach other ∈ t.stops target.parent → t.reach other ∈ t.stops other.parent

theorem ne_nil_of_not_prefix (h : ¬ p.entryNames <+: q.entryNames) : p.names ≠ [] := by
  intro hnil
  refine h ?_
  rw [FilePath.entryNames, hnil]
  exact List.nil_prefix

/-- The place of a file is none that another file leads through, unless it is one that all files below
the directory lead through. -/
theorem reach_mem_stops_of_not_prefix (hp : p.Descends) (hq : q.Descends)
    (hpq : ¬ p.entryNames <+: q.entryNames) (hq' : q.names ≠ [])
    (h : t.reach (base.join p) ∈ t.stops (base.join q).parent) :
    t.reach (base.join p) ∈ t.stops (base.join p).parent := by
  have hp' : p.names ≠ [] := ne_nil_of_not_prefix hpq
  rw [stops_parent_join hq hq'] at h
  rw [stops_parent_join hp hp']
  rcases List.mem_append.1 h with hbase | hbelow
  · exact List.mem_append_left _ hbase
  · obtain ⟨front, hfront, -, heq⟩ := exists_prefix_of_mem_passed hq.notMem_entryNames hbelow
    rw [reach_join hp, List.append_cancel_left_eq] at heq
    exact absurd (heq ▸ hfront) hpq

/-- Files below one directory are apart if neither path is above the other. -/
theorem apart_join (hp : p.Descends) (hq : q.Descends)
    (hpq : ¬ (base.join p).IsAbove (base.join q)) (hqp : ¬ (base.join q).IsAbove (base.join p))
    (t : FileTree) : t.Apart (base.join p) (base.join q) := by
  rw [FilePath.isAbove_join_iff hp hq] at hpq
  rw [FilePath.isAbove_join_iff hq hp] at hqp
  have hp' : p.names ≠ [] := ne_nil_of_not_prefix hpq
  have hq' : q.names ≠ [] := ne_nil_of_not_prefix hqp
  refine ⟨?_, reach_mem_stops_of_not_prefix hp hq hpq hq',
    reach_mem_stops_of_not_prefix hq hp hqp hp'⟩
  rw [reach_join hp, reach_join hq]
  intro heq
  rw [List.append_cancel_left_eq] at heq
  exact hpq (heq ▸ List.prefix_rfl)

/-- A file that can be written among more directories could be written before, unless it leads through
a file that has gone. -/
theorem Retains.writable (h : Retains t t')
    (hfile : ∀ s ∈ t.stops target.parent, t'.isFileAt s = false → t.isFileAt s = false)
    (hafter : t'.Writable target) : t.Writable target := by
  obtain ⟨hfits, hnoFile, hnoDirectory, hapart⟩ := hafter
  rw [reach_congr h.home, stops_congr h.home] at hapart
  rw [stops_congr h.home] at hnoFile
  rw [reach_congr h.home] at hnoDirectory
  refine ⟨hfits, fun s hs => hfile s hs (hnoFile s hs), ?_, hapart⟩
  refine Bool.eq_false_iff.2 fun hdirectory => ?_
  exact Bool.false_ne_true (hnoDirectory.symm.trans (h.directory _ hdirectory))

/-- Directories that are made for one file do not decide whether another one can be written. -/
theorem Grows.writable_iff (h : Grows (t.stops other.parent) t t') (hapart : t.Apart target other) :
    t'.Writable target ↔ t.Writable target := by
  constructor
  · exact h.retains.writable fun s _ hs => (h.isFileAt s).symm.trans hs
  · intro hbefore
    refine ⟨hbefore.fits, ?_, ?_, ?_⟩
    · rw [stops_congr h.home]
      exact fun s hs => (h.isFileAt s).trans (hbefore.noFile s hs)
    · rw [reach_congr h.home]
      rcases h.entry (t.reach target) with hsame | ⟨hstop, -, -⟩
      · simpa only [FileTree.isDirectoryAt, hsame] using hbefore.noDirectory
      · exact absurd (hapart.stops hstop) hbefore.apart
    · rw [reach_congr h.home, stops_congr h.home]
      exact hbefore.apart

/-- Neither does another file that was written. -/
theorem Written.writable_iff (h : Written other content t t') (hapart : t.Apart target other) :
    t'.Writable target ↔ t.Writable target := by
  constructor
  · refine h.retains.writable fun s hs hnoFile => ?_
    have hplace : s ≠ t.reach other := by
      rintro rfl
      exact h.writable.apart (hapart.others hs)
    rcases h.disturbs.entry s hplace with hsame | ⟨-, hnone, -⟩
    · simpa only [isFileAt, hsame] using hnoFile
    · simp [isFileAt, hnone]
  · intro hbefore
    refine h.disturbs.writable ?_ hbefore
    rintro (hclash | hclash)
    · rcases List.mem_cons.1 hclash with hsame | hstop
      · exact hapart.places hsame
      · exact hbefore.apart (hapart.stops hstop)
    · rcases List.mem_cons.1 hclash with hsame | hstop
      · exact hapart.places hsame.symm
      · exact h.writable.apart (hapart.others hstop)

/-- Trees with directories and with files at the same places, whatever stands in the files. -/
structure SameShape (t t' : FileTree) : Prop where
  home : t'.home = t.home
  directory : ∀ p, t'.isDirectoryAt p = t.isDirectoryAt p
  file : ∀ p, t'.isFileAt p = t.isFileAt p

theorem SameShape.symm (h : SameShape t t') : SameShape t' t :=
  ⟨h.home.symm, fun p => (h.directory p).symm, fun p => (h.file p).symm⟩

theorem SameShape.writable (h : SameShape t t') (htarget : t.Writable target) :
    t'.Writable target := by
  refine ⟨htarget.fits, ?_, ?_, ?_⟩
  · rw [stops_congr h.home]
    exact fun s hs => (h.file s).trans (htarget.noFile s hs)
  · rw [reach_congr h.home]
    exact (h.directory _).trans htarget.noDirectory
  · rw [reach_congr h.home, stops_congr h.home]
    exact htarget.apart

end FileTree
end Stencil
