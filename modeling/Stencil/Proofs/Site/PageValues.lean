import Mathlib.Data.List.Forall2
import Stencil.Proofs.Mapping.Override
import Stencil.Proofs.Site.Context
import Stencil.Proofs.Site.Requirements
/-! The values for a page: what follows from its site and language, with the page's own data over it.
No app and no language is lost on the way. -/
namespace Stencil.PageContext

variable {site languages page path siteUrl base slug : Datum} {m language : Mapping Datum}
  {code current default : Text} {es : List (Text × Datum)} {ds entries : List Datum} {k : Text}

/-- The names of the values that follow from the site, the language and the path of a page. -/
def derivedKeys : List Text :=
  ["site", "lang", "langPrefix", "currency", "langSwitcher", "navApps", "brandUrl", "footerHomeUrl",
    "canonicalUrl", "xDefaultUrl", "footer", "cookie", "privacyUrl"]

/-- A page with no data of its own. -/
def withoutData (page : Datum) : Datum :=
  .mapping ⟨page.asMapping.entries.filter fun e => e.1 ≠ "data"⟩

/-- What a language of a site is listed as. -/
def switcherRecord (site languages page : Datum) (current : Text) (e : Text × Datum) : Mapping Datum :=
  (switcherEntry (fieldOrEmpty site.asMapping "url") (fieldOrEmpty page.asMapping "path") current
    (languages.asMapping.keys.headD []) e.1 e.2.asMapping).asMapping

/-- What the languages of a site are listed as. -/
def switcherRecords (site languages page : Datum) (code : Text) : List (Mapping Datum) :=
  languages.asMapping.entries.map (switcherRecord site languages page code)

/-- What the apps of a language are listed as. -/
def navRecords (page language : Datum) : List (Mapping Datum) :=
  (appRecords language).map fun app =>
    (navEntry (fieldOrEmpty language.asMapping "prefix") (Datum.field page.asMapping "slug")
      app.asMapping).asMapping

/-- The values that follow for a page in a language. -/
def derivedValues (site languages page : Datum) (code : Text) : Mapping Datum :=
  derived site.asMapping (languageOf languages code).asMapping
    (fieldOrEmpty page.asMapping "path")
    ((switcherRecords site languages page code).map .mapping)
    ((navRecords page (languageOf languages code)).map .mapping)

theorem derivedValues_keys (site languages page : Datum) (code : Text) :
    (derivedValues site languages page code).keys = derivedKeys := rfl

theorem eq_of_switcher (h : switcher siteUrl path current default es = .ok entries) :
    entries = es.map fun e => switcherEntry siteUrl path current default e.1 e.2.asMapping := by
  induction es generalizing entries with
  | nil => exact (Except.ok.inj h).symm
  | cons e es ih =>
    rw [switcher] at h
    split at h
    · cases h
    · next language hlanguage =>
      obtain rfl := eq_asMapping_of_object hlanguage
      obtain ⟨others, hothers, rfl⟩ := exists_of_map_eq_ok h
      rw [ih hothers]
      rfl

theorem eq_of_navEntries (h : navEntries code base slug ds = .ok entries) :
    entries = ds.map fun app => navEntry base slug app.asMapping := by
  induction ds generalizing entries with
  | nil => exact (Except.ok.inj h).symm
  | cons d ds ih =>
    rw [navEntries] at h
    split at h
    · cases h
    · next app happ =>
      obtain rfl := eq_asMapping_of_object happ
      obtain ⟨others, hothers, rfl⟩ := exists_of_map_eq_ok h
      rw [ih hothers]
      rfl

/-- All that a successful computation can answer. -/
theorem build_cases (h : build site languages page = .ok m) :
    ∃ code, langOf page = .str code ∧ code ∈ languages.asMapping.keys ∧
      m = (derivedValues site languages page code).merge (dataOf page).asMapping := by
  obtain ⟨_, hsite, h⟩ := exists_of_bind_eq_ok h
  obtain ⟨_, hlanguages, h⟩ := exists_of_bind_eq_ok h
  obtain ⟨_, hpage, h⟩ := exists_of_bind_eq_ok h
  obtain rfl := eq_asMapping_of_object hsite
  obtain rfl := eq_asMapping_of_object hlanguages
  obtain rfl := eq_asMapping_of_object hpage
  obtain ⟨_, hdata, h⟩ := exists_of_bind_eq_ok h
  obtain rfl := eq_asMapping_of_object hdata
  obtain ⟨⟨code, language⟩, hlanguage, h⟩ := exists_of_bind_eq_ok h
  obtain ⟨hcode, hmem, rfl⟩ := eq_of_pageLanguage hlanguage
  obtain ⟨languageEntries, hswitcher, h⟩ := exists_of_bind_eq_ok h
  obtain ⟨items, happs, h⟩ := exists_of_bind_eq_ok h
  obtain ⟨appEntries, hnav, h⟩ := exists_of_bind_eq_ok h
  have hitems : appRecords (languageOf languages code) = items := appRecords_of_apps happs
  subst hitems
  obtain rfl := eq_of_switcher hswitcher
  obtain rfl := eq_of_navEntries hnav
  refine ⟨code, hcode, hmem, (Except.ok.inj h).symm.trans ?_⟩
  rw [derivedValues, switcherRecords, navRecords, List.map_map, List.map_map]
  rfl

theorem field_withoutData (hk : k ≠ "data") :
    Datum.field (withoutData page).asMapping k = Datum.field page.asMapping k := by
  have hfind (es : List (Text × Datum)) :
      Mapping.find? k (es.filter fun e => e.1 ≠ "data") = Mapping.find? k es := by
    induction es with
    | nil => rfl
    | cons e es ih =>
      by_cases he : e.1 = "data"
      · rw [List.filter_cons_of_neg (by simpa using he), ih, Mapping.find?, if_neg]
        exact fun hek => hk (hek.symm.trans he)
      · rw [List.filter_cons_of_pos (by simpa using he), Mapping.find?, Mapping.find?, ih]
  exact congrArg (Option.getD · .null) (hfind page.asMapping.entries)

theorem dataOf_withoutData (page : Datum) : dataOf (withoutData page) = .null := by
  have hnone : (withoutData page).asMapping.get? "data" = none := by
    apply Mapping.get?_eq_none_iff.2
    intro hmem
    obtain ⟨e, he, hdata⟩ := List.mem_map.1 hmem
    simpa [hdata] using (List.mem_filter.1 he).2
  rw [dataOf, Datum.field, hnone]
  rfl

/-- What follows for a page does not depend on its data. -/
theorem derivedValues_withoutData (site languages page : Datum) (code : Text) :
    derivedValues site languages (withoutData page) code =
      derivedValues site languages page code := by
  have hpath : fieldOrEmpty (withoutData page).asMapping "path" = fieldOrEmpty page.asMapping "path" :=
    congrArg (Datum.orElse · _) (field_withoutData (by decide))
  have hslug : Datum.field (withoutData page).asMapping "slug" = Datum.field page.asMapping "slug" :=
    field_withoutData (by decide)
  have hrecord : switcherRecord site languages (withoutData page) code =
      switcherRecord site languages page code := by
    funext e
    rw [switcherRecord, switcherRecord, hpath]
  simp only [derivedValues, switcherRecords, navRecords, hrecord, hpath, hslug]

/-- Where a page can be built, it can be built without its data, and then has what follows. -/
theorem build_withoutData (h : build site languages page = .ok m) (hcode : langOf page = .str code) :
    build site languages (withoutData page) = .ok (derivedValues site languages page code) := by
  have hlang : langOf (withoutData page) = langOf page := field_withoutData (by decide)
  have hmet := (enforces_build site languages page).exists_ok_iff.1 ⟨m, h⟩
  have hmet' : ∀ r ∈ requirements site languages (withoutData page), r.met := by
    simp only [requirements, hlang, List.forall_mem_append, List.forall_mem_cons] at hmet ⊢
    obtain ⟨⟨hsite, hlanguages, -, -, hknown⟩, hrest⟩ := hmet
    have hdata : (dataOf (withoutData page)).IsRecord := .inl (dataOf_withoutData page)
    exact ⟨⟨hsite, hlanguages, .inr ⟨_, rfl⟩, hdata, hknown⟩, hrest⟩
  obtain ⟨m', h'⟩ := (enforces_build site languages (withoutData page)).exists_ok_iff.2 hmet'
  obtain ⟨code', hcode', -, rfl⟩ := build_cases h'
  obtain rfl := Datum.str.inj ((hcode.symm.trans hlang.symm).trans hcode')
  rw [h', dataOf_withoutData, derivedValues_withoutData]
  rfl

/-- The entry for an app: the app with its address and a mark added, or changed where they stand. The
mark tells whether the app is called like the page. -/
structure IsNavEntryOf (slug : Datum) (app entry : Mapping Datum) : Prop where
  kept : ∀ k : Text, k ≠ "url" → k ≠ "isCurrent" → entry.get? k = app.get? k
  order : entry.keys = app.keys ++ (["url", "isCurrent"] : List Text).filter (· ∉ app.keys)
  current : entry.get? "isCurrent" = some (.bool ((Datum.field app "slug").same slug))

theorem isNavEntryOf_navEntry (base slug : Datum) (app : Mapping Datum) :
    IsNavEntryOf slug app (navEntry base slug app).asMapping := by
  have hover (url current : Datum) := Mapping.overrides_merge
    (n := ⟨[("url", url), ("isCurrent", current)]⟩)
    (show (["url", "isCurrent"] : List Text).Nodup by decide) app
  constructor
  · intro k hurl hcurrent
    apply (hover _ _).other k
    rintro (_ | ⟨_, _ | ⟨_, hk⟩⟩)
    · exact hurl rfl
    · exact hcurrent rfl
    · cases hk
  · exact (hover _ _).order
  · exact (hover _ _).own _ _ rfl

/-- Whether the entry for a language is marked as that of the page. -/
def isCurrent (entry : Mapping Datum) : Bool := (Datum.field entry "isCurrent").isTruthy

/-- Every language is listed once, in order, and only one of them is marked. -/
structure ListsLanguages (languages : Mapping Datum) (code : Text) (entries : List (Mapping Datum)) :
    Prop where
  codes : entries.map (Datum.field · "code") = languages.keys.map .str
  once : languages.keys.Nodup
  current : (entries.filter isCurrent).map (Datum.field · "code") = [.str code]

/-- The entry for the language of a page. -/
def ownRecord (site languages page : Datum) (code : Text) : Mapping Datum :=
  switcherRecord site languages page code (code, languageOf languages code)

/-- Of the entries for languages the one of the page is marked. -/
theorem filter_isCurrent (site page : Datum) (hlanguages : languages.asMapping.Distinct)
    (hcode : code ∈ languages.asMapping.keys) :
    (switcherRecords site languages page code).filter isCurrent =
      [ownRecord site languages page code] := by
  cases hd : languages.asMapping.get? code with
  | none => exact absurd hcode (Mapping.get?_eq_none_iff.1 hd)
  | some d =>
    have hcurrent : (languages.asMapping.entries.filter fun e => e.1 = code) = [(code, d)] :=
      Mapping.filter_eq_of_get? hlanguages hd
    have hlanguage : languageOf languages code = d := by
      rw [languageOf, Datum.field, hd]
      rfl
    rw [switcherRecords, List.filter_map, ownRecord, hlanguage]
    exact congrArg (List.map _) hcurrent

theorem listsLanguages_switcherRecords (site page : Datum) (hlanguages : languages.asMapping.Distinct)
    (hcode : code ∈ languages.asMapping.keys) :
    ListsLanguages languages.asMapping code (switcherRecords site languages page code) := by
  constructor
  · rw [switcherRecords, List.map_map, Mapping.keys, List.map_map]
    rfl
  · exact hlanguages
  · rw [filter_isCurrent site page hlanguages hcode]
    rfl

/-- Where the values for a page can be built, they are those that follow for the page without its data,
and its data win over them in value but not in position. Unless the data give their own, every app of the
navigation is listed in order, and every language. -/
theorem build_keepsRecords (hlanguages : languages.JsonLike) (hpage : page.JsonLike)
    (h : build site languages page = .ok m) :
    ∃ code d, langOf page = .str code ∧
      build site languages (withoutData page) = .ok d ∧ d.keys = derivedKeys ∧
      Mapping.Overrides d (dataOf page).asMapping m ∧
      (("navApps" : Text) ∉ (dataOf page).asMapping.keys → ∃ entries : List (Mapping Datum),
        m.get? "navApps" = some (.list (entries.map .mapping)) ∧
        List.Forall₂ (fun app entry =>
            IsNavEntryOf (Datum.field page.asMapping "slug") app.asMapping entry)
          (appRecords (languageOf languages code)) entries) ∧
      (("langSwitcher" : Text) ∉ (dataOf page).asMapping.keys → ∃ entries : List (Mapping Datum),
        m.get? "langSwitcher" = some (.list (entries.map .mapping)) ∧
        ListsLanguages languages.asMapping code entries) := by
  have hdata : (dataOf page).asMapping.Distinct := (hpage.asMapping.field "data").asMapping.distinct
  obtain ⟨code, hlang, hcode, rfl⟩ := build_cases h
  have hover := Mapping.overrides_merge hdata (derivedValues site languages page code)
  refine ⟨code, derivedValues site languages page code, hlang, build_withoutData h hlang,
    derivedValues_keys site languages page code, hover, ?_, ?_⟩
  · intro hnav
    refine ⟨navRecords page (languageOf languages code), hover.other _ hnav, ?_⟩
    rw [navRecords, List.forall₂_map_right_iff, List.forall₂_same]
    intro app _
    exact isNavEntryOf_navEntry _ _ _
  · intro hswitcher
    exact ⟨switcherRecords site languages page code, hover.other _ hswitcher,
      listsLanguages_switcherRecords site page hlanguages.asMapping.distinct hcode⟩

/-- A language with two apps, one with an address already and one that is null, beside a language that
is null. -/
def twoLanguages : Datum :=
  .mapping ⟨[("de", .null), ("en", .mapping ⟨[("nav", .mapping ⟨[("apps",
    .list [.mapping ⟨[("url", .str "x"), ("slug", .str "a")]⟩, .null])]⟩)]⟩)]⟩

/-- A page with a footer of its own and a title. -/
def titledPage : Datum :=
  .mapping ⟨[("lang", .str "en"), ("slug", .str "a"),
    ("data", .mapping ⟨[("title", .str "A"), ("footer", .str "B")]⟩)]⟩

theorem jsonLike_twoLanguages : twoLanguages.JsonLike := by
  have happ : (Datum.mapping ⟨[("url", .str "x"), ("slug", .str "a")]⟩).JsonLike :=
    .mapping (by decide) (List.forall_mem_cons.2 ⟨.str _, List.forall_mem_singleton.2 (.str _)⟩)
  have happs : (Datum.list [.mapping ⟨[("url", .str "x"), ("slug", .str "a")]⟩, .null]).JsonLike :=
    .list (List.forall_mem_cons.2 ⟨happ, List.forall_mem_singleton.2 .null⟩)
  exact .mapping (by decide) (List.forall_mem_cons.2 ⟨.null, List.forall_mem_singleton.2
    (.mapping (by decide) (List.forall_mem_singleton.2
      (.mapping (by decide) (List.forall_mem_singleton.2 happs))))⟩)

theorem jsonLike_titledPage : titledPage.JsonLike := by
  have hdata : (Datum.mapping ⟨[("title", .str "A"), ("footer", .str "B")]⟩).JsonLike :=
    .mapping (by decide) (List.forall_mem_cons.2 ⟨.str _, List.forall_mem_singleton.2 (.str _)⟩)
  exact .mapping (by decide) (List.forall_mem_cons.2 ⟨.str _,
    List.forall_mem_cons.2 ⟨.str _, List.forall_mem_singleton.2 hdata⟩⟩)

theorem build_keepsRecords_titledPage :
    ∃ m, build .null twoLanguages titledPage = .ok m ∧
      m.get? "footer" = some (.str "B") ∧ m.keys = derivedKeys ++ [("title" : Text)] ∧
      (∃ entries : List (Mapping Datum), m.get? "navApps" = some (.list (entries.map .mapping)) ∧
        List.Forall₂ (fun app entry => IsNavEntryOf (.str "a") (Datum.asMapping app) entry)
          [.mapping ⟨[("url", .str "x"), ("slug", .str "a")]⟩, .null] entries) ∧
      ∃ entries : List (Mapping Datum), m.get? "langSwitcher" = some (.list (entries.map .mapping)) ∧
        ListsLanguages twoLanguages.asMapping "en" entries := by
  have h : build .null twoLanguages titledPage =
      .ok ((derivedValues .null twoLanguages titledPage "en").merge (dataOf titledPage).asMapping) := rfl
  obtain ⟨code, d, hlang, -, hkeys, hover, hnav, hswitcher⟩ :=
    build_keepsRecords jsonLike_twoLanguages jsonLike_titledPage h
  obtain rfl : ("en" : Text) = code := Datum.str.inj hlang
  refine ⟨_, h, hover.own _ _ rfl, ?_, hnav (by decide), hswitcher (by decide)⟩
  rw [hover.order, hkeys]
  rfl

end Stencil.PageContext
