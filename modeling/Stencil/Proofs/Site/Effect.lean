import Stencil.Proofs.Files.Contents
import Stencil.Proofs.Site.Isolation
/-! What a build changes in the files: it writes the pages that are built and nothing else. A dry run
changes nothing, and reports of a page what the build does unless the file system refuses it. -/
namespace Stencil

open FileTree (Grows Retains Written overwrite)

variable {config : SiteConfig} {settings : Settings} {t t' : FileTree} {r : PageResult}
  {rs : List PageResult} {e : ReportEntry} {es : List ReportEntry} {report : BuildReport}

/-- All that the end of a page does to the files: a page that is built is written, and one that has
failed was not rendered, or it could not be written and leaves directories at most. -/
theorem PageEnds.effect (hdry : config.dryRun = false) (h : PageEnds config t r e t') :
    (∃ page, r.result = .ok page ∧ e = .built r.path ∧
      Written (config.target r.path) (Utf8.bytes page.output) t t') ∨
    (∃ message, e = .failed r.path message ∧ r.result.isOk = false ∧ t' = t) ∨
    (∃ message, e = .failed r.path message ∧ r.result.isOk ∧
      Grows (t.stops (config.target r.path).parent) t t' ∧
      ¬ t.Writable (config.target r.path)) := by
  cases h with
  | @unrendered problem hresult => exact .inr (.inl ⟨_, rfl, by rw [hresult]; rfl, rfl⟩)
  | @written page _ hresult hwrite =>
    have hsaved := hwrite ▸ saved_writePage hdry t r.path page.output
    cases hsaved with
    | done hcontent hdone =>
      obtain ⟨-, rfl⟩ := Utf8.encode_eq_ok_iff.1 hcontent
      exact .inl ⟨page, hresult, rfl, hdone⟩
  | @refused page _ _ _ hresult hwrite =>
    have hsaved := hwrite ▸ saved_writePage hdry t r.path page.output
    cases hsaved with
    | refused hnot hgrows => exact .inr (.inr ⟨_, rfl, by rw [hresult]; rfl, hgrows, hnot⟩)

/-- The place and the content of the file that is written for a page, if the page is built. -/
def PageResult.written? (config : SiteConfig) (t : FileTree) (r : PageResult) :
    ReportEntry → Option (Place × Bytes)
  | .built _ => r.result.toOption.map fun page =>
    (t.reach (config.target r.path), Utf8.bytes page.output)
  | .failed _ _ => none

/-- The files that are written for the pages that are built, in the order of the pages. -/
def filesWritten (config : SiteConfig) (t : FileTree) (rs : List PageResult)
    (es : List ReportEntry) : List (Place × Bytes) :=
  (rs.zip es).filterMap fun (r, e) => r.written? config t e

theorem filesWritten_cons (config : SiteConfig) (t : FileTree) (r : PageResult)
    (rs : List PageResult) (e : ReportEntry) (es : List ReportEntry) :
    filesWritten config t (r :: rs) (e :: es) =
      (r.written? config t e).toList ++ filesWritten config t rs es := by
  cases h : r.written? config t e <;> simp [filesWritten, h]

/-- Where a page is written depends on the place that relative paths start from, and on nothing else
in the tree. -/
theorem filesWritten_congr (h : t'.home = t.home) (rs : List PageResult) (es : List ReportEntry) :
    filesWritten config t' rs es = filesWritten config t rs es := by
  have hpage (r : PageResult) (e : ReportEntry) :
      r.written? config t' e = r.written? config t e := by
    cases e <;> simp [PageResult.written?, FileTree.reach_congr h]
  simp only [filesWritten, hpage]

theorem PageEnds.files_eq (hdry : config.dryRun = false) (h : PageEnds config t r e t') :
    t'.files = overwrite t.files (r.written? config t e).toList := by
  rcases h.effect hdry with
    ⟨page, hresult, rfl, hwritten⟩ | ⟨message, rfl, -, rfl⟩ | ⟨message, rfl, -, hgrows, -⟩
  · rw [hwritten.files_eq]
    simp [PageResult.written?, hresult, Except.toOption, overwrite]
  · rfl
  · rw [hgrows.files_eq]
    rfl

theorem PageEnds.retains (hdry : config.dryRun = false) (h : PageEnds config t r e t') :
    Retains t t' := by
  rcases h.effect hdry with
    ⟨page, -, -, hwritten⟩ | ⟨message, -, -, rfl⟩ | ⟨message, -, -, hgrows, -⟩
  · exact hwritten.retains
  · exact .refl _
  · exact hgrows.retains

/-- A page that is built is found where its path leads. -/
theorem PageEnds.leads (hdry : config.dryRun = false) (h : PageEnds config t r (.built r.path) t') :
    t'.Leads (config.target r.path) := by
  rcases h.effect hdry with
    ⟨page, -, -, hwritten⟩ | ⟨message, hfailed, -⟩ | ⟨message, hfailed, -⟩
  · exact hwritten.leads
  · cases hfailed
  · cases hfailed

/-- After some pages the files are those there were, with the built pages written over them. -/
theorem PagesEnd.files_eq (hdry : config.dryRun = false) (h : PagesEnd config t rs es t') :
    t'.files = overwrite t.files (filesWritten config t rs es) := by
  induction h with
  | nil => rfl
  | cons hpage _ ih =>
    rw [ih, hpage.files_eq hdry, filesWritten_congr hpage.home, filesWritten_cons,
      FileTree.overwrite_append]

theorem PagesEnd.retains (hdry : config.dryRun = false) (h : PagesEnd config t rs es t') :
    Retains t t' := by
  induction h with
  | nil => exact .refl _
  | cons hpage _ ih => exact (hpage.retains hdry).trans ih

/-- The path of every page that is built leads to its file in the end. -/
theorem PagesEnd.leads (hdry : config.dryRun = false) (h : PagesEnd config t rs es t')
    (hbuilt : (r, .built r.path) ∈ rs.zip es) : t'.Leads (config.target r.path) := by
  induction h with
  | nil => cases hbuilt
  | cons hpage hpages ih =>
    rw [List.zip_cons_cons] at hbuilt
    rcases List.mem_cons.1 hbuilt with hfirst | hlater
    · obtain ⟨rfl, rfl⟩ := Prod.mk.inj hfirst
      exact (hpages.retains hdry).leads (hpage.leads hdry)
    · exact ih hlater

/-- How pages change the files of a tree: after any number of them, nothing has been done but to write
the html of each built one, in their order, at the place that its path leads to. -/
structure WritesBuilt (config : SiteConfig) (t : FileTree) (rs : List PageResult)
    (es : List ReportEntry) (t' : FileTree) : Prop where
  files : t'.files = overwrite t.files (filesWritten config t rs es)
  pages : ∀ n, ∃ middle, PagesEnd config t (rs.take n) (es.take n) middle ∧
    PagesEnd config middle (rs.drop n) (es.drop n) t' ∧
    middle.files = overwrite t.files (filesWritten config t (rs.take n) (es.take n))
  places : ∀ r, (r, .built r.path) ∈ rs.zip es →
    t'.locate (config.target r.path) = .ok (t.reach (config.target r.path))

theorem PagesEnd.split (n : Nat) (h : PagesEnd config t rs es t') :
    ∃ middle, PagesEnd config t (rs.take n) (es.take n) middle ∧
      PagesEnd config middle (rs.drop n) (es.drop n) t' := by
  induction h generalizing n with
  | @nil t => exact ⟨t, by simpa using .nil, by simpa using .nil⟩
  | @cons t _ _ _ _ _ _ hpage hpages ih =>
    cases n with
    | zero => exact ⟨t, .nil, .cons hpage hpages⟩
    | succ n =>
      obtain ⟨middle, hfirst, hlast⟩ := ih n
      exact ⟨middle, .cons hpage hfirst, hlast⟩

theorem PagesEnd.writesBuilt (hdry : config.dryRun = false) (h : PagesEnd config t rs es t') :
    WritesBuilt config t rs es t' := by
  refine ⟨h.files_eq hdry, fun n => ?_, fun r hr => ?_⟩
  · obtain ⟨middle, hfirst, hlast⟩ := h.split n
    exact ⟨middle, hfirst, hlast, hfirst.files_eq hdry⟩
  · rw [(h.leads hdry hr).locate_eq, FileTree.reach_congr h.home]

/-- What a dry run says of a page: it is built if it is rendered. -/
def PageResult.dryEntry (r : PageResult) : ReportEntry :=
  match r.result with
  | .ok _ => .built r.path
  | .error problem => .failed r.path problem.text

theorem pagesEnd_dryRun (hdry : config.dryRun = true) (t : FileTree) (rs : List PageResult) :
    PagesEnd config t rs (rs.map PageResult.dryEntry) t := by
  induction rs with
  | nil => exact .nil
  | cons r rs ih =>
    refine .cons ?_ ih
    unfold PageResult.dryEntry
    cases hresult : r.result with
    | error problem => exact .unrendered hresult
    | ok page => exact .written hresult (writePage_of_dryRun hdry t r.path page.output)

/-- What a build says of a page: what a dry run does, unless the page is rendered and the file system
refuses to write it. -/
inductive Foretold (config : SiteConfig) (r : PageResult) : ReportEntry → Prop
  | same : Foretold config r r.dryEntry
  | refused {page : Rendering} {t t' : FileTree} {problem : FileProblem} {place : Text}
    (hresult : r.result = .ok page)
    (hwrite : Progress.writePage t config r.path page.output =
      (t', some (.system problem place))) :
    Foretold config r (.failed r.path (FileError.system problem place).message)

theorem PageResult.dryEntry_of_ok {page : Rendering} (h : r.result = .ok page) :
    r.dryEntry = .built r.path := by
  rw [dryEntry, h]

theorem PageResult.dryEntry_of_error {problem : PageProblem} (h : r.result = .error problem) :
    r.dryEntry = .failed r.path problem.text := by
  rw [dryEntry, h]

theorem PageEnds.foretold (h : PageEnds config t r e t') : Foretold config r e := by
  cases h with
  | unrendered hresult => exact r.dryEntry_of_error hresult ▸ .same
  | written hresult => exact r.dryEntry_of_ok hresult ▸ .same
  | refused hresult hwrite => exact .refused hresult hwrite

theorem PagesEnd.foretold (h : PagesEnd config t rs es t') :
    List.Forall₂ (Foretold config) rs es := by
  induction h with
  | nil => exact .nil
  | cons hpage _ ih => exact .cons hpage.foretold ih

/-- Whatever is built is built in a dry run too, and whatever fails in a dry run fails for the same
reason. -/
theorem foretold_sublists (h : List.Forall₂ (Foretold config) rs es) :
    (es.filterMap ReportEntry.built?).Sublist
        ((rs.map PageResult.dryEntry).filterMap ReportEntry.built?) ∧
      ((rs.map PageResult.dryEntry).filterMap ReportEntry.failed?).Sublist
        (es.filterMap ReportEntry.failed?) := by
  induction h with
  | nil => exact ⟨.slnil, .slnil⟩
  | @cons r e rs es hpage _ ih =>
    obtain ⟨hbuilt, hfailed⟩ := ih
    rw [List.map_cons]
    cases hpage with
    | same =>
      cases r.dryEntry with
      | built path => exact ⟨hbuilt.cons_cons path, hfailed⟩
      | failed path message => exact ⟨hbuilt, hfailed.cons_cons (path, message)⟩
    | refused hresult hwrite =>
      rw [r.dryEntry_of_ok hresult]
      exact ⟨hbuilt.cons r.path, hfailed.cons _⟩

namespace SiteConfig

/-- The same build without any writing. -/
def dry (config : SiteConfig) : SiteConfig := { config with dryRun := true }

/-- A dry run leaves all files as they are, however it ends. -/
theorem tree_build_dry (config : SiteConfig) (settings : Settings) (t : FileTree) :
    (config.dry.build settings t).tree = t := by
  cases hload : Site.load t config.dry with
  | error e => simp [build, hload]
  | ok loaded =>
    obtain ⟨site, logs⟩ := loaded
    rw [Site.build_of_load hload]
    rcases hrender : site.renderAll config.dry settings with ⟨result, lines⟩
    cases result with
    | error fault => simp [Site.build, hrender]
    | ok results =>
      obtain ⟨hfault, -⟩ := (Site.renderAll_eq_ok_iff config.dry).1 (congrArg Prod.fst hrender)
      exact (Site.build_of_pagesEnd logs hfault (pagesEnd_dryRun rfl t _)).2

/-- What a build that returns has done and what a dry run of it reports. -/
theorem exists_pagesEnd_of_build (h : (config.build settings t).result = .ok report) :
    ∃ site logs entries, Site.load t config = .ok (site, logs) ∧
      PagesEnd config t (site.pages.map (site.renderPage settings)) entries
        (config.build settings t).tree ∧
      report = .ofEntries (site.pages.map (site.renderPage settings)) entries ∧
      (config.dry.build settings t).result =
        .ok (.ofEntries (site.pages.map (site.renderPage settings))
          ((site.pages.map (site.renderPage settings)).map PageResult.dryEntry)) := by
  obtain ⟨site, logs, hload⟩ := exists_load_of_build h
  have hdryLoad : Site.load t config.dry = .ok (site, logs) := hload
  rw [Site.build_of_load hload] at h ⊢
  rw [Site.build_of_load hdryLoad]
  obtain ⟨hfault, entries, t', hends⟩ := Site.pagesEnd_of_build h
  obtain ⟨hresult, htree⟩ := Site.build_of_pagesEnd logs hfault hends
  exact ⟨site, logs, entries, hload, htree ▸ hends, Except.ok.inj (h.symm.trans hresult),
    (Site.build_of_pagesEnd logs hfault (pagesEnd_dryRun rfl t _)).1⟩

/-- A build that returns has written the pages that it reports as built, and no page that it reports
as failed has changed a file. A dry run changes nothing at all. Where the build returns, so does the
dry run, with the same warnings; it reports of every page what the build does, but for rendered pages
that the file system refuses to write. -/
theorem build_writes_built (config : SiteConfig) (settings : Settings) (t : FileTree) :
    (config.dry.build settings t).tree = t ∧
    ∀ report, (config.build settings t).result = .ok report →
      ∃ site logs results entries dryReport, Site.load t config = .ok (site, logs) ∧
        results = site.pages.map (site.renderPage settings) ∧
        PagesEnd config t results entries (config.build settings t).tree ∧
        report = .ofEntries results entries ∧
        (config.dryRun = false →
          WritesBuilt config t results entries (config.build settings t).tree) ∧
        (config.dry.build settings t).result = .ok dryReport ∧
        dryReport = .ofEntries results (results.map PageResult.dryEntry) ∧
        List.Forall₂ (Foretold config) results entries ∧
        dryReport.warnings = report.warnings ∧
        report.built.Sublist dryReport.built ∧ dryReport.failed.Sublist report.failed := by
  refine ⟨config.tree_build_dry settings t, fun report hreport => ?_⟩
  obtain ⟨site, logs, entries, hload, hends, rfl, hdry⟩ := exists_pagesEnd_of_build hreport
  have hforetold := hends.foretold
  obtain ⟨hbuilt, hfailed⟩ := foretold_sublists hforetold
  exact ⟨site, logs, _, entries, _, hload, rfl, hends, rfl, fun hreal => hends.writesBuilt hreal,
    hdry, rfl, hforetold, rfl, hbuilt, hfailed⟩

/-- A page in whose way a file was written fails, which a dry run does not foresee. -/
theorem build_writes_built_crowdedSite :
    ∃ results entries dryReport,
      WritesBuilt {} crowdedSite results entries (build {} .default crowdedSite).tree ∧
      entries.filterMap ReportEntry.failed? = ([("a", "template \"q\" not found"),
        ("d/e", "[Errno 17] File exists: 'd'")] : List (Text × Text)) ∧
      (build (dry {}) .default crowdedSite).result = .ok dryReport ∧
      dryReport.built = (["d", "d/e", "f/../g.html"] : List Text) ∧
      (["d", "f/../g.html"] : List Text).Sublist dryReport.built ∧
      (build (dry {}) .default crowdedSite).tree = crowdedSite := by
  have hreport : (build {} .default crowdedSite).result =
      .ok ⟨["d", "f/../g.html"],
        [("a", "template \"q\" not found"), ("d/e", "[Errno 17] File exists: 'd'")], []⟩ :=
    ok_of_toOption (by decide +kernel)
  have hforeseen : (build (dry {}) .default crowdedSite).result =
      .ok ⟨["d", "d/e", "f/../g.html"], [("a", "template \"q\" not found")], []⟩ :=
    ok_of_toOption (by decide +kernel)
  obtain ⟨htree, hpages⟩ := build_writes_built {} .default crowdedSite
  obtain ⟨site, logs, results, entries, dryReport, -, -, -, hentries, hwrites, hdry, -, -, -, hbuilt,
    -⟩ := hpages _ hreport
  have hfailed := congrArg BuildReport.failed hentries
  obtain rfl := Except.ok.inj (hforeseen.symm.trans hdry)
  exact ⟨results, entries, _, hwrites rfl, hfailed.symm, hdry, rfl, hbuilt, htree⟩

end SiteConfig

end Stencil
