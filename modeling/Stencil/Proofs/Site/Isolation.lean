import Stencil.Proofs.Files.Write
import Stencil.Proofs.Site.Context
import Stencil.Proofs.Site.Report
/-! No page of a site stops the others: whatever a record says, its page is built or fails, and a page
that could be built alone is built with any others, unless one of them gets in its way. -/
namespace Stencil

open FileTree (Disturbs Saved)

/-- Where a page is written. -/
def SiteConfig.target (config : SiteConfig) (path : Text) : FilePath :=
  config.root.join (.ofText path)

variable {config : SiteConfig} {settings : Settings} {t t' : FileTree} {r : PageResult}
  {rs rs' : List PageResult} {e : ReportEntry} {es : List ReportEntry} {target : FilePath}

theorem saved_writePage (hdry : config.dryRun = false) (t : FileTree) (path html : Text) :
    Saved t (config.target path) html (Progress.writePage t config path html) := by
  rw [Progress.writePage, hdry]
  exact t.saved_saveText (config.target path) html

theorem writePage_of_dryRun (hdry : config.dryRun = true) (t : FileTree) (path html : Text) :
    Progress.writePage t config path html = (t, none) := by
  rw [Progress.writePage, if_pos hdry]

/-- A page that is written, if at all, to a path that can be one and as a text without surrogates. -/
def PageResult.Encodable (config : SiteConfig) (r : PageResult) : Prop :=
  config.dryRun = false → ∀ page ∈ r.result.toOption,
    (config.target r.path).fault? = none ∧ ∀ c ∈ page.output, c.isSurrogate = false

instance (config : SiteConfig) (r : PageResult) : Decidable (r.Encodable config) :=
  inferInstanceAs (Decidable (_ → ∀ page ∈ r.result.toOption, _))

/-- Such a page ends, in whatever files the pages before it have left. -/
theorem PageResult.Encodable.exists_pageEnds (h : r.Encodable config) (t : FileTree) :
    ∃ e t', PageEnds config t r e t' := by
  cases hresult : r.result with
  | error problem => exact ⟨_, _, .unrendered hresult⟩
  | ok page =>
    cases hdry : config.dryRun with
    | true => exact ⟨_, _, .written hresult (writePage_of_dryRun hdry t r.path page.output)⟩
    | false =>
      obtain ⟨hpath, houtput⟩ := h hdry page (by rw [hresult]; rfl)
      generalize hwrite : Progress.writePage t config r.path page.output = result
      have hsaved := hwrite ▸ saved_writePage hdry t r.path page.output
      cases hsaved with
      | done => exact ⟨_, _, .written hresult hwrite⟩
      | refused => exact ⟨_, _, .refused hresult hwrite⟩
      | barred hfault => exact absurd hpath hfault
      | emptied hcontent =>
        rw [Utf8.encode_eq_ok_iff.2 ⟨houtput, rfl⟩] at hcontent
        cases hcontent

theorem exists_pagesEnd (h : ∀ r ∈ rs, r.Encodable config) (t : FileTree) :
    ∃ es t', PagesEnd config t rs es t' := by
  induction rs generalizing t with
  | nil => exact ⟨_, _, .nil⟩
  | cons r rs ih =>
    obtain ⟨hr, hrs⟩ := List.forall_mem_cons.1 h
    obtain ⟨e, t', hpage⟩ := hr.exists_pageEnds t
    obtain ⟨es, t'', hpages⟩ := ih hrs t'
    exact ⟨_, _, .cons hpage hpages⟩

/-- All that the end of a page may change: nothing, or what writing it disturbs. -/
theorem PageEnds.disturbs (h : PageEnds config t r e t') :
    t' = t ∨ r.result.isOk ∧ Disturbs (config.target r.path) t t' := by
  have hwritten {page : Rendering} {stopped : Option FileError} (hresult : r.result = .ok page)
      (hwrite : Progress.writePage t config r.path page.output = (t', stopped)) :
      t' = t ∨ r.result.isOk ∧ Disturbs (config.target r.path) t t' := by
    cases hdry : config.dryRun with
    | true =>
      rw [writePage_of_dryRun hdry] at hwrite
      exact .inl (Prod.mk.inj hwrite).1.symm
    | false =>
      refine .inr ⟨by rw [hresult]; rfl, ?_⟩
      have hsaved := hwrite ▸ saved_writePage hdry t r.path page.output
      cases hsaved with
      | done _ hdone | emptied _ hdone => exact hdone.disturbs
      | refused _ hpartly | barred _ hpartly => exact hpartly.disturbs
  cases h with
  | unrendered => exact .inl rfl
  | written hresult hwrite => exact hwritten hresult hwrite
  | refused hresult hwrite => exact hwritten hresult hwrite

theorem PageEnds.home (h : PageEnds config t r e t') : t'.home = t.home := by
  rcases h.disturbs with rfl | ⟨-, hdisturbs⟩
  · rfl
  · exact hdisturbs.home

theorem PagesEnd.home (h : PagesEnd config t rs es t') : t'.home = t.home := by
  induction h with
  | nil => rfl
  | cons hpage _ ih => exact ih.trans hpage.home

/-- Pages that do not get in the way of a file leave it writable if it was, and leave it as it is if
it was written. -/
theorem PagesEnd.keeps (h : PagesEnd config t rs es t')
    (hconflict : ∀ r ∈ rs, r.result.isOk → ¬ t.Conflict target (config.target r.path)) :
    (t.Writable target → t'.Writable target) ∧
      ∀ content, t.lookup target = .ok (some (.file content)) →
        t'.lookup target = .ok (some (.file content)) := by
  induction h with
  | nil => exact ⟨id, fun _ => id⟩
  | cons hpage _ ih =>
    obtain ⟨hr, hrs⟩ := List.forall_mem_cons.1 hconflict
    rcases hpage.disturbs with rfl | ⟨hrendered, hdisturbs⟩
    · exact ih hrs
    · obtain ⟨hwritable, hfound⟩ := ih fun r hr hrendered hclash =>
        hrs r hr hrendered ((FileTree.conflict_congr hdisturbs.home _ _).1 hclash)
      have hconflict := hr hrendered
      exact ⟨fun h => hwritable (hdisturbs.writable hconflict h),
        fun content h => hfound content (hdisturbs.lookup hconflict h)⟩

/-- Pages end in two parts, one after the other. -/
theorem PagesEnd.of_append (h : PagesEnd config t (rs ++ rs') es t') :
    ∃ es₁ es₂ middle, es = es₁ ++ es₂ ∧ PagesEnd config t rs es₁ middle ∧
      PagesEnd config middle rs' es₂ t' := by
  induction rs generalizing t es with
  | nil => exact ⟨[], es, t, rfl, .nil, h⟩
  | cons r rs ih =>
    cases h with
    | cons hpage hpages =>
      obtain ⟨es₁, es₂, middle, rfl, hfirst, hsecond⟩ := ih hpages
      exact ⟨_ :: es₁, es₂, middle, rfl, .cons hpage hfirst, hsecond⟩

/-- A page that is rendered and that can be written is built, and its file is there. -/
theorem PageEnds.built_of_writable {page : Rendering} (h : PageEnds config t r e t')
    (hresult : r.result = .ok page)
    (hwritable : config.dryRun = false →
      t.Writable (config.target r.path) ∧ ∃ content, Utf8.encode page.output = .ok content) :
    e = .built r.path ∧
      (config.dryRun = false → t'.HoldsText (config.target r.path) page.output) := by
  generalize hwrite : Progress.writePage t config r.path page.output = result
  have hdone : result.2 = none ∧
      (config.dryRun = false → result.1.HoldsText (config.target r.path) page.output) := by
    cases hdry : config.dryRun with
    | true =>
      rw [writePage_of_dryRun hdry] at hwrite
      exact ⟨hwrite ▸ rfl, nofun⟩
    | false =>
      obtain ⟨hwritable, content, hencoded⟩ := hwritable hdry
      have hsaved := hwrite ▸ saved_writePage hdry t r.path page.output
      cases hsaved with
      | done hcontent hdone => exact ⟨rfl, fun _ => ⟨_, hcontent, hdone.found⟩⟩
      | refused hnot => exact absurd hwritable hnot
      | barred hfault => exact absurd hwritable.fits.fault hfault
      | emptied hcontent =>
        rw [hencoded] at hcontent
        cases hcontent
  obtain ⟨tree, stopped⟩ := result
  obtain ⟨hnone, hfound⟩ := hdone
  cases h with
  | unrendered herror => simp [hresult] at herror
  | written hresult' hwrite' =>
    obtain rfl := Except.ok.inj (hresult.symm.trans hresult')
    obtain ⟨rfl, -⟩ := Prod.mk.inj (hwrite.symm.trans hwrite')
    exact ⟨rfl, hfound⟩
  | refused hresult' hwrite' =>
    obtain rfl := Except.ok.inj (hresult.symm.trans hresult')
    obtain ⟨-, rfl⟩ := Prod.mk.inj (hwrite.symm.trans hwrite')
    cases hnone

/-- A page that is built was rendered and could be written. -/
theorem PageEnds.writable_of_built (h : PageEnds config t r (.built r.path) t') :
    ∃ page, r.result = .ok page ∧ (config.dryRun = false →
      t.Writable (config.target r.path) ∧ ∃ content, Utf8.encode page.output = .ok content) := by
  cases h with
  | @written page _ hresult hwrite =>
    refine ⟨page, hresult, fun hdry => ?_⟩
    have hsaved := hwrite ▸ saved_writePage hdry t r.path page.output
    cases hsaved with
    | done hcontent hdone => exact ⟨hdone.writable, _, hcontent⟩

namespace Site

variable {s : Site} {page : Datum} {before after : List Datum} {logs : List LogLine}

/-- Whether a page is built where it is the only one of the site. -/
def BuildsAlone (s : Site) (config : SiteConfig) (settings : Settings) (t : FileTree)
    (page : Datum) : Prop :=
  ∃ report, ((s.withPages [page]).build config settings t []).result = .ok report ∧
    report.built = [(s.renderAlone settings page).path]

/-- What the build of a loaded site keeps to, whatever the records of its pages are: it returns a
report in which every page is built or has failed, and a page that is built alone is built and
written where no other page gets in its way. -/
def Isolates (s : Site) (config : SiteConfig) (settings : Settings) (t : FileTree)
    (run : BuildRun) : Prop :=
  ∃ entries, run.result = .ok (.ofEntries (s.pages.map (s.renderAlone settings)) entries) ∧
    PagesEnd config t (s.pages.map (s.renderAlone settings)) entries run.tree ∧
    ∀ before page after, s.pages = before ++ page :: after →
      s.BuildsAlone config settings t page →
      (∀ other ∈ before ++ after, (s.renderAlone settings other).result.isOk →
        ¬ t.Conflict (config.target (s.renderAlone settings page).path)
          (config.target (s.renderAlone settings other).path)) →
      entries[before.length]? = some (.built (s.renderAlone settings page).path) ∧
      ∃ rendering, (s.renderAlone settings page).result = .ok rendering ∧
        (config.dryRun = false →
          run.tree.HoldsText (config.target (s.renderAlone settings page).path) rendering.output)

theorem BuildsAlone.exists_rendering (h : s.BuildsAlone config settings t page) :
    ∃ rendering, (s.renderAlone settings page).result = .ok rendering ∧
      (config.dryRun = false → t.Writable (config.target (s.renderAlone settings page).path) ∧
        ∃ content, Utf8.encode rendering.output = .ok content) := by
  obtain ⟨report, hreport, hbuilt⟩ := h
  obtain ⟨hfault, es, t', hends⟩ := pagesEnd_of_build hreport
  obtain ⟨hresult, -⟩ := build_of_pagesEnd [] hfault hends
  obtain rfl := Except.ok.inj (hreport.symm.trans hresult)
  rw [pages_withPages] at hends hbuilt
  cases hends with
  | @cons _ _ _ _ _ e es hpage hpages =>
    cases hpages
    have hentry : e = .built (s.renderAlone settings page).path := by
      cases e with
      | failed => cases hbuilt
      | built path => exact congrArg ReportEntry.built (List.cons.inj hbuilt).1
    subst hentry
    exact PageEnds.writable_of_built (r := s.renderAlone settings page) hpage

/-- A page that is built alone is built between others that do not get in its way. -/
theorem built_between {rendering : Rendering}
    (hends : PagesEnd config t ((before ++ page :: after).map (s.renderAlone settings)) es t')
    (hresult : (s.renderAlone settings page).result = .ok rendering)
    (hwritable : config.dryRun = false →
      t.Writable (config.target (s.renderAlone settings page).path) ∧
        ∃ content, Utf8.encode rendering.output = .ok content)
    (hconflict : ∀ other ∈ before ++ after, (s.renderAlone settings other).result.isOk →
      ¬ t.Conflict (config.target (s.renderAlone settings page).path)
        (config.target (s.renderAlone settings other).path)) :
    es[before.length]? = some (.built (s.renderAlone settings page).path) ∧
      (config.dryRun = false →
        t'.HoldsText (config.target (s.renderAlone settings page).path) rendering.output) := by
  obtain ⟨hbefore, hafter⟩ := List.forall_mem_append.1 hconflict
  rw [List.map_append, List.map_cons] at hends
  obtain ⟨es₁, es₂, middle, rfl, hfirst, hrest⟩ := hends.of_append
  cases hrest with
  | @cons _ reached _ _ _ e es₂ hpage hlast =>
    have hmiddle := (hfirst.keeps (List.forall_mem_map.2 hbefore)).1
    obtain ⟨rfl, hfound⟩ := hpage.built_of_writable hresult fun hdry =>
      (hwritable hdry).imp_left hmiddle
    have hhome : reached.home = t.home := hpage.home.trans hfirst.home
    have hkept := (hlast.keeps (List.forall_mem_map.2 fun other hother hrendered hclash =>
      hafter other hother hrendered ((FileTree.conflict_congr hhome _ _).1 hclash))).2
    refine ⟨?_, fun hdry => (hfound hdry).imp fun content => And.imp_right (hkept content)⟩
    have hlength : before.length = es₁.length := by rw [hfirst.length_eq, List.length_map]
    rw [hlength, List.getElem?_append_right (Nat.le_refl _), Nat.sub_self]
    rfl

end Site

/-- A page without a template, one in whose place the next one would need a directory, and one that
gets in nobody's way. -/
def crowdedSite : FileTree :=
  smallSite [pageRecord "q" "a", pageRecord "p" "d", pageRecord "p" "d/e",
    pageRecord "p" "f/../g.html"] "hi"

/-- What can be decided of a site that is loaded. -/
theorem Site.holds_of_load {site : Site} {logs : List LogLine} {P : Site → Prop} [DecidablePred P]
    (hload : Site.load t config = .ok (site, logs))
    (h : (Site.load t config).toOption.all fun loaded => P loaded.1) : P site := by
  rw [hload] at h
  simpa [Except.toOption] using h

/-- A page that is to be written to a path with a NUL character, and one that is built alone. -/
def nulSite : FileTree := smallSite [pageRecord "p" "x\x00", pageRecord "p" "y"] "hi"

end Stencil
