import Stencil.Proofs.Files.Apart
import Stencil.Proofs.Site.Effect
/-! Pages that are not written in each other's way may come in any order: whether a page is built does
not depend on the pages before it, and the files that are written stand at different places. -/
namespace Stencil

open FileTree (SameShape overwrite)

variable {config : SiteConfig} {settings : Settings} {t t' t₀ : FileTree} {r r' : PageResult}
  {rs rs' : List PageResult} {e : ReportEntry} {es es' : List ReportEntry} {w : Place × Bytes}

/-- An entry without the reason of a failure. -/
def ReportEntry.withoutReason : ReportEntry → ReportEntry
  | .built path => .built path
  | .failed path _ => .failed path []

namespace ReportEntry

theorem filterMap_built?_withoutReason (es : List ReportEntry) :
    (es.map withoutReason).filterMap built? = es.filterMap built? := by
  rw [List.filterMap_map]
  congr
  funext e
  cases e <;> rfl

theorem filterMap_failed?_withoutReason (es : List ReportEntry) :
    (es.map withoutReason).filterMap (fun e => e.failed?.map Prod.fst) =
      (es.filterMap failed?).map Prod.fst := by
  rw [List.filterMap_map, List.map_filterMap]
  congr
  funext e
  cases e <;> rfl

end ReportEntry

/-- A page that is rendered and that could be written in a tree. -/
def PageResult.Succeeds (config : SiteConfig) (t : FileTree) (r : PageResult) : Prop :=
  r.result.isOk ∧ (config.dryRun = false → t.Writable (config.target r.path))

open scoped Classical in
/-- What becomes of a page in a tree, but for the reason if it fails. -/
noncomputable def PageResult.outcome (config : SiteConfig) (t : FileTree) (r : PageResult) :
    ReportEntry :=
  if r.Succeeds config t then .built r.path else .failed r.path []

namespace PageResult

theorem outcome_of_succeeds (h : r.Succeeds config t) : r.outcome config t = .built r.path := by
  rw [outcome, if_pos h]

theorem outcome_of_not_succeeds (h : ¬ r.Succeeds config t) :
    r.outcome config t = .failed r.path [] := by
  rw [outcome, if_neg h]

theorem outcome_congr (h : r.Succeeds config t ↔ r.Succeeds config t₀) :
    r.outcome config t = r.outcome config t₀ := by
  by_cases hr : r.Succeeds config t
  · rw [outcome_of_succeeds hr, outcome_of_succeeds (h.1 hr)]
  · rw [outcome_of_not_succeeds hr, outcome_of_not_succeeds (mt h.2 hr)]

end PageResult

/-- A page is built exactly if it succeeds in the tree that it meets. -/
theorem PageEnds.withoutReason_eq (h : PageEnds config t r e t') :
    e.withoutReason = r.outcome config t := by
  cases hdry : config.dryRun with
  | false =>
    rcases h.effect hdry with
      ⟨page, hresult, rfl, hwritten⟩ | ⟨message, rfl, hnot, -⟩ | ⟨message, rfl, -, -, hnot⟩
    · exact (r.outcome_of_succeeds ⟨by rw [hresult]; rfl, fun _ => hwritten.writable⟩).symm
    · exact (r.outcome_of_not_succeeds fun hr => Bool.false_ne_true (hnot.symm.trans hr.1)).symm
    · exact (r.outcome_of_not_succeeds fun hr => hnot (hr.2 hdry)).symm
  | true =>
    have hreal : config.dryRun ≠ false := by simp [hdry]
    cases h with
    | unrendered hresult =>
      refine (r.outcome_of_not_succeeds fun hr => ?_).symm
      have hrendered := hr.1
      rw [hresult] at hrendered
      cases hrendered
    | written hresult =>
      exact (r.outcome_of_succeeds ⟨by rw [hresult]; rfl, fun h => absurd h hreal⟩).symm
    | refused hresult hwrite =>
      rw [writePage_of_dryRun hdry] at hwrite
      cases hwrite

theorem PagesEnd.tree_of_dryRun (hdry : config.dryRun = true) (h : PagesEnd config t rs es t') :
    t' = t := by
  induction h with
  | nil => rfl
  | cons hpage _ ih =>
    rw [ih]
    cases hpage with
    | unrendered => rfl
    | written _ hwrite | refused _ hwrite =>
      rw [writePage_of_dryRun hdry] at hwrite
      exact (Prod.mk.inj hwrite).1.symm

/-- Neither of two pages, if both are rendered, is written at or above the place of the other. -/
def PageResult.Beside (config : SiteConfig) (r r' : PageResult) : Prop :=
  r.result.isOk → r'.result.isOk →
    ¬ (config.target r.path).IsAbove (config.target r'.path) ∧
      ¬ (config.target r'.path).IsAbove (config.target r.path)

instance (config : SiteConfig) (r r' : PageResult) : Decidable (r.Beside config r') :=
  inferInstanceAs (Decidable (_ → _ → _))

theorem PageResult.Beside.symm (h : r.Beside config r') : r'.Beside config r :=
  fun hr' hr => (h hr hr').symm

/-- Pages of which those that are rendered are written below the root, each beside the others. -/
structure Independent (config : SiteConfig) (rs : List PageResult) : Prop where
  descends : ∀ r ∈ rs, r.result.isOk → (FilePath.ofText r.path).Descends
  beside : rs.Pairwise (PageResult.Beside config)

namespace Independent

theorem perm (h : Independent config rs) (hperm : rs.Perm rs') : Independent config rs' :=
  ⟨fun r hr => h.descends r (hperm.mem_iff.2 hr),
    hperm.pairwise h.beside fun hbeside => hbeside.symm⟩

theorem tail (h : Independent config (r :: rs)) : Independent config rs :=
  ⟨fun r hr => h.descends r (List.mem_cons_of_mem _ hr), h.beside.tail⟩

/-- Two of the pages that are rendered are written apart. -/
theorem apart (h : Independent config rs) (hr : r ∈ rs) (hr' : r' ∈ rs)
    (hbeside : r.Beside config r') (hok : r.result.isOk) (hok' : r'.result.isOk) (t : FileTree) :
    t.Apart (config.target r.path) (config.target r'.path) := by
  obtain ⟨hnot, hnot'⟩ := hbeside hok hok'
  exact FileTree.apart_join (h.descends r hr hok) (h.descends r' hr' hok') hnot hnot' t

/-- Whether a later page succeeds is the same before and after the first one. -/
theorem succeeds_iff (h : Independent config (r :: rs)) (hpage : PageEnds config t r e t')
    (hr' : r' ∈ rs) : r'.Succeeds config t' ↔ r'.Succeeds config t := by
  refine and_congr_right fun hok' => imp_congr_right fun hdry => ?_
  have hapart (hok : r.result.isOk) :
      t.Apart (config.target r'.path) (config.target r.path) :=
    h.apart (List.mem_cons_of_mem _ hr') List.mem_cons_self
      ((List.pairwise_cons.1 h.beside).1 r' hr').symm hok' hok t
  rcases hpage.effect hdry with
    ⟨page, hresult, -, hwritten⟩ | ⟨message, -, -, rfl⟩ | ⟨message, -, hok, hgrows, -⟩
  · exact hwritten.writable_iff (hapart (by rw [hresult]; rfl))
  · exact Iff.rfl
  · exact hgrows.writable_iff (hapart hok)

end Independent

/-- What becomes of independent pages is decided by the tree that the first of them meets. -/
theorem PagesEnd.withoutReason_eq (t₀ : FileTree) (h : PagesEnd config t rs es t')
    (hpages : Independent config rs)
    (hsame : ∀ r ∈ rs, (r.Succeeds config t ↔ r.Succeeds config t₀)) :
    es.map ReportEntry.withoutReason = rs.map (PageResult.outcome config t₀) := by
  induction h with
  | nil => rfl
  | @cons t _ _ r rs _ _ hpage _ ih =>
    have hlater : ∀ r' ∈ rs, (r'.Succeeds config _ ↔ r'.Succeeds config t₀) := fun r' hr' =>
      (hpages.succeeds_iff hpage hr').trans (hsame r' (List.mem_cons_of_mem _ hr'))
    rw [List.map_cons, List.map_cons, hpage.withoutReason_eq, ih hpages.tail hlater,
      PageResult.outcome_congr (hsame r List.mem_cons_self)]

theorem PageResult.written?_withoutReason (config : SiteConfig) (t : FileTree) (r : PageResult)
    (e : ReportEntry) : r.written? config t e.withoutReason = r.written? config t e := by
  cases e <;> rfl

theorem PageResult.of_written? (h : r.written? config t e = some w) :
    r.result.isOk ∧ w.1 = t.reach (config.target r.path) := by
  cases e with
  | failed => cases h
  | built =>
    cases hresult : r.result with
    | error problem => simp [written?, hresult, Except.toOption] at h
    | ok page =>
      simp only [written?, hresult, Except.toOption, Option.map_some, Option.some.injEq] at h
      exact ⟨rfl, h ▸ rfl⟩

/-- The files that are written for pages whose ends are known. -/
theorem filesWritten_of_outcomes
    (h : es.map ReportEntry.withoutReason = rs.map (PageResult.outcome config t₀)) :
    filesWritten config t rs es = rs.filterMap fun r => r.written? config t (r.outcome config t₀) := by
  have hreasons : filesWritten config t rs (es.map ReportEntry.withoutReason) =
      filesWritten config t rs es := by
    rw [filesWritten, List.zip_map_right, List.filterMap_map]
    congr
    funext page
    exact page.1.written?_withoutReason config t page.2
  have hzip : rs.zip (rs.map (PageResult.outcome config t₀)) =
      rs.map fun r => (r, r.outcome config t₀) := by
    simpa using List.zip_map' (f := id) (g := PageResult.outcome config t₀) (l := rs)
  rw [← hreasons, h, filesWritten, hzip, List.filterMap_map]
  rfl

/-- The files of independent pages are written at different places. -/
theorem Independent.places_filesWritten (h : Independent config rs) (t t₀ : FileTree) :
    (rs.filterMap fun r => r.written? config t (r.outcome config t₀)).Pairwise
      fun w w' => w.1 ≠ w'.1 := by
  rw [List.pairwise_filterMap]
  refine h.beside.imp_of_mem ?_
  intro r r' hr hr' hbeside w hw w' hw'
  obtain ⟨hok, hplace⟩ := PageResult.of_written? hw
  obtain ⟨hok', hplace'⟩ := PageResult.of_written? hw'
  rw [hplace, hplace']
  exact (h.apart hr hr' hbeside hok hok' t).places

/-- Two runs that return with the same reports but for the order of the entries and for why pages have
failed, and with the same content wherever they have started from the same. -/
def BuildRun.EndsLike (t t' : FileTree) (run run' : BuildRun) : Prop :=
  ∀ report report', run.result = .ok report → run'.result = .ok report' →
    report.built.Perm report'.built ∧
      (report.failed.map Prod.fst).Perm (report'.failed.map Prod.fst) ∧
      report.warnings.Perm report'.warnings ∧
      ∀ p, t.files p = t'.files p → run.tree.files p = run'.tree.files p

theorem PageResult.succeeds_congr (h : SameShape t t') (r : PageResult) :
    r.Succeeds config t ↔ r.Succeeds config t' :=
  and_congr_right fun _ => imp_congr_right fun _ => ⟨h.writable, h.symm.writable⟩

/-- Independent pages end alike in any order. -/
theorem PagesEnd.perm {after after' : FileTree} (h : PagesEnd config t rs es after)
    (h' : PagesEnd config t' rs' es' after') (hpages : Independent config rs) (hperm : rs.Perm rs')
    (hshape : SameShape t t') :
    (es.map ReportEntry.withoutReason).Perm (es'.map ReportEntry.withoutReason) ∧
      ∀ p, t.files p = t'.files p → after.files p = after'.files p := by
  have hends := h.withoutReason_eq t hpages fun _ _ => Iff.rfl
  have hends' := h'.withoutReason_eq t (hpages.perm hperm) fun r _ =>
    (r.succeeds_congr hshape).symm
  refine ⟨hends ▸ hends' ▸ hperm.map _, fun p hp => ?_⟩
  cases hdry : config.dryRun with
  | true => rw [h.tree_of_dryRun hdry, h'.tree_of_dryRun hdry, hp]
  | false =>
    rw [h.files_eq hdry, h'.files_eq hdry, filesWritten_congr hshape.home,
      filesWritten_of_outcomes hends, filesWritten_of_outcomes hends',
      FileTree.overwrite_perm (hperm.filterMap _) (hpages.places_filesWritten t t)]
    exact FileTree.overwrite_congr hp _

namespace Site

/-- For independent pages the order does not matter: two builds with the same pages in two orders, in
trees of the same shape, end alike if both return. That is so for a site in memory, and for sites
that are loaded and differ in the order of their pages. -/
theorem build_perm (config : SiteConfig) (settings : Settings) (s : Site) (t t' : FileTree)
    (pages pages' : List Datum) (hperm : pages.Perm pages')
    (hpages : Independent config (pages.map (s.renderPage settings))) (hshape : SameShape t t') :
    (∀ logs logs', BuildRun.EndsLike t t' ((s.withPages pages).build config settings t logs)
      ((s.withPages pages').build config settings t' logs')) ∧
    ∀ logs logs', Site.load t config = .ok (s.withPages pages, logs) →
      Site.load t' config = .ok (s.withPages pages', logs') →
      BuildRun.EndsLike t t' (config.build settings t) (config.build settings t') := by
  have hbuild (logs logs' : List LogLine) :
      BuildRun.EndsLike t t' ((s.withPages pages).build config settings t logs)
        ((s.withPages pages').build config settings t' logs') := by
    intro report report' hreport hreport'
    obtain ⟨hfault, es, after, hends⟩ := pagesEnd_of_build hreport
    obtain ⟨hfault', es', after', hends'⟩ := pagesEnd_of_build hreport'
    obtain ⟨hresult, htree⟩ := build_of_pagesEnd logs hfault hends
    obtain ⟨hresult', htree'⟩ := build_of_pagesEnd logs' hfault' hends'
    obtain rfl := Except.ok.inj (hreport.symm.trans hresult)
    obtain rfl := Except.ok.inj (hreport'.symm.trans hresult')
    have halone (pages : List Datum) : (s.withPages pages).renderPage settings =
        s.renderPage settings := funext (s.renderPage_withPages settings pages)
    simp only [pages_withPages, halone] at hends hends' ⊢
    have hresults := hperm.map (s.renderPage settings)
    obtain ⟨hentries, hfiles⟩ := hends.perm hends' hpages hresults hshape
    refine ⟨?_, ?_, hresults.flatMap_right _, htree ▸ htree' ▸ hfiles⟩
    · simpa only [BuildReport.ofEntries, ReportEntry.filterMap_built?_withoutReason] using
        hentries.filterMap ReportEntry.built?
    · simpa only [BuildReport.ofEntries, ReportEntry.filterMap_failed?_withoutReason] using
        hentries.filterMap fun e => e.failed?.map Prod.fst
  refine ⟨hbuild, fun logs logs' hload hload' => ?_⟩
  rw [build_of_load hload, build_of_load hload']
  exact hbuild logs logs'

/-- A site with one template, which asks for a partial that is not there. -/
def tinySite : Site :=
  ⟨⟨[("languages", .mapping ⟨[("en", .mapping .empty)]⟩)]⟩, ⟨[("p", tagOf "> nav" ++ "hi")]⟩, .empty⟩

/-- A file and a directory. -/
def obstructedTree (content : Text) : FileTree :=
  ⟨[], [(["f"], .file (Utf8.bytes content)), (["g"], .directory)]⟩

/-- Pages of which two share a directory that is not there yet, two are obstructed and one names
no template. -/
def crossedPages : List Datum :=
  [pageRecord "p" "d/a", pageRecord "p" "f/x", pageRecord "p" "d/e/b", pageRecord "p" "g",
    pageRecord "q" "d/z"]

theorem entry?_obstructedTree (content content' : Text) {p : Place} (hp : p ≠ (["f"] : Place)) :
    FileTree.entry? (obstructedTree content) p = FileTree.entry? (obstructedTree content') p := by
  have hfile : ¬ [[↑ 'f']] = p := Ne.symm hp
  simp [obstructedTree, FileTree.entry?, List.find?_cons, hfile]

theorem sameShape_obstructedTree (content content' : Text) :
    SameShape (obstructedTree content) (obstructedTree content') := by
  refine ⟨rfl, fun p => ?_, fun p => ?_⟩
  all_goals
    by_cases hp : p = (["f"] : Place)
    · subst hp
      rfl
    · simp only [FileTree.isDirectoryAt, FileTree.isFileAt, entry?_obstructedTree content' content hp]

/-- They are built and fail alike from the first to the last and from the last to the first. -/
theorem build_perm_crossedPages :
    ∃ run run', run = (tinySite.withPages crossedPages).build {} .default (obstructedTree "old") [] ∧
      run' = (tinySite.withPages crossedPages.reverse).build {} .default (obstructedTree "new") [] ∧
      run.result.toOption.map BuildReport.built = some (["d/a", "d/e/b"] : List Text) ∧
      run'.result.toOption.map BuildReport.built = some (["d/e/b", "d/a"] : List Text) ∧
      BuildRun.EndsLike (obstructedTree "old") (obstructedTree "new") run run' ∧
      ∀ p : Place, p ≠ (["f"] : Place) → run.tree.files p = run'.tree.files p := by
  have hends := (build_perm {} .default tinySite (obstructedTree "old") (obstructedTree "new")
    crossedPages crossedPages.reverse crossedPages.reverse_perm.symm
    ⟨by decide +kernel, by decide +kernel⟩ (sameShape_obstructedTree "old" "new")).1 [] []
  obtain ⟨report, hreport⟩ := exists_ok_of_isOk (x := ((tinySite.withPages crossedPages).build {}
    .default (obstructedTree "old") []).result) (by decide +kernel)
  obtain ⟨report', hreport'⟩ := exists_ok_of_isOk (x := ((tinySite.withPages
    crossedPages.reverse).build {} .default (obstructedTree "new") []).result) (by decide +kernel)
  refine ⟨_, _, rfl, rfl, by decide +kernel, by decide +kernel, hends, fun p hp => ?_⟩
  refine (hends report report' hreport hreport').2.2.2 p ?_
  rw [FileTree.files, entry?_obstructedTree "old" "new" hp]
  rfl

end Site

end Stencil
