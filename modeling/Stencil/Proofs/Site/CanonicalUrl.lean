import Stencil.Proofs.Site.PageValues
import Stencil.Proofs.Text.Numeral
/-! The address of a page as it is listed among those of all languages, and as it is given as the
canonical one. -/
namespace Stencil

namespace Binary64

theorem positional_ne_nil (digits : Text) (places : Int) : positional digits places ≠ [] := by
  unfold positional
  split
  · simp
  · split <;> simp

theorem scientific_ne_nil (digits : Text) (exponent : Int) : scientific digits exponent ≠ [] := by
  have hsign : (if exponent < 0 then ("e-" : Text) else "e+") ≠ [] := by
    split <;> decide
  apply List.append_ne_nil_of_left_ne_nil
  apply List.append_ne_nil_of_left_ne_nil
  exact List.append_ne_nil_of_right_ne_nil _ hsign

/-- Every number is written with some character. -/
theorem text_ne_nil (x : Binary64) : x.text ≠ [] := by
  cases x with
  | nan written => simp [text]
  | infinite negative => cases negative <;> simp [text]
  | finite negative m e =>
    rw [text]
    apply List.append_ne_nil_of_right_ne_nil
    split
    · simp
    · unfold Decimal.text
      dsimp only
      split
      · exact positional_ne_nil _ _
      · exact scientific_ne_nil _ _

end Binary64

theorem Text.ofInt_ne_nil (n : Int) : ofInt n ≠ [] := by
  cases n with
  | ofNat n => exact Text.ofNat_ne_nil n
  | negSucc n => exact List.cons_ne_nil _ _

theorem bracketed_ne_nil {opening : Text} (h : opening ≠ []) (closing : Text)
    (items : List Text) : bracketed opening closing items ≠ [] := by
  apply List.append_ne_nil_of_left_ne_nil
  exact List.append_ne_nil_of_left_ne_nil h _

namespace Datum

variable {d : Datum}

theorem literal_ne_nil (d : Datum) : d.literal ≠ [] := by
  cases d with
  | absent | null =>
    unfold literal
    decide
  | scope layers =>
    unfold literal
    exact List.append_ne_nil_of_right_ne_nil _ (by decide)
  | bool b =>
    unfold literal
    cases b <;> decide
  | int n =>
    unfold literal
    exact Text.ofInt_ne_nil n
  | float x =>
    unfold literal
    exact x.text_ne_nil
  | str s =>
    unfold literal
    exact List.cons_ne_nil _ _
  | list items =>
    unfold literal
    exact bracketed_ne_nil (by simp) _ _
  | tuple items =>
    unfold literal
    split
    · simp
    · exact bracketed_ne_nil (by simp) _ _
  | mapping m =>
    unfold literal
    exact bracketed_ne_nil (by simp) _ _

/-- Of the values that are not left out, each is shown as some text. -/
theorem display_eq_nil_iff : (d.orElse (.str [])).display = [] ↔ d.isVoid := by
  cases hd : d.isVoid with
  | true => simp [orElse, hd, display]
  | false =>
    simp only [orElse, hd, Bool.false_eq_true, if_false, iff_false]
    cases d with
    | str s =>
      rintro rfl
      cases hd
    | absent | null | bool | int | float | list | tuple | mapping | scope => exact literal_ne_nil _

theorem isVoid_orElse : (d.orElse (.str [])).isVoid = d.isVoid := by
  cases hd : d.isVoid with
  | true =>
    rw [orElse, if_pos hd]
    rfl
  | false => simp [orElse, hd]

end Datum

namespace PageContext

variable {site languages page : Datum} {m : Mapping Datum} {code : Text}

/-- The page is the home of the first language, and this language has a part of its own in
addresses. -/
structure HomeBehindPrefix (languages page : Datum) (code : Text) : Prop where
  home : (Datum.field page.asMapping "path").isVoid
  first : languages.asMapping.keys.head? = some code
  prefixed : (Datum.field (languageOf languages code).asMapping "prefix").isVoid = false

/-- The two rules for the address of a page in its language agree, except for the home of the first
language. -/
theorem languageUrl_eq_iff (path base : Datum) (isDefault : Bool) :
    languageUrl (path.orElse (.str [])) isDefault (base.orElse (.str [])) =
        (base.orElse (.str [])).display ++ "/" ++ pathPart (path.orElse (.str [])) ↔
      ¬ (path.isVoid ∧ isDefault ∧ base.isVoid = false) := by
  rw [languageUrl, pathPart, Datum.isVoid_orElse]
  by_cases hpath : path.isVoid
  · cases isDefault with
    | true =>
      simp [hpath, Datum.display_eq_nil_iff]
    | false => simp [hpath]
  · simp [hpath]

theorem headD_eq_iff (hcode : code ∈ languages.asMapping.keys) :
    code = languages.asMapping.keys.headD [] ↔ languages.asMapping.keys.head? = some code := by
  obtain ⟨first, others, hkeys⟩ := List.exists_cons_of_ne_nil (List.ne_nil_of_mem hcode)
  simp [hkeys, eq_comm]

/-- Where the entry for the language of a page leads. -/
theorem fullUrl_ownRecord (site languages page : Datum) (code : Text) :
    (ownRecord site languages page code).get? "fullUrl" =
      some (.str ((fieldOrEmpty site.asMapping "url").display ++
        languageUrl (fieldOrEmpty page.asMapping "path")
          (code = languages.asMapping.keys.headD [])
          (fieldOrEmpty (languageOf languages code).asMapping "prefix"))) := rfl

theorem canonicalUrl_derivedValues (site languages page : Datum) (code : Text) :
    (derivedValues site languages page code).get? "canonicalUrl" =
      some (.str ((fieldOrEmpty site.asMapping "url").display ++
        ((fieldOrEmpty (languageOf languages code).asMapping "prefix").display ++ "/") ++
        pathPart (fieldOrEmpty page.asMapping "path"))) := rfl

theorem ownRecord_agrees_iff (site page : Datum) (hcode : code ∈ languages.asMapping.keys) :
    (∃ url, (ownRecord site languages page code).get? "fullUrl" = some url ∧
      (derivedValues site languages page code).get? "canonicalUrl" = some url) ↔
      ¬ HomeBehindPrefix languages page code := by
  have hurls := languageUrl_eq_iff (Datum.field page.asMapping "path")
    (Datum.field (languageOf languages code).asMapping "prefix")
    (code = languages.asMapping.keys.headD [])
  have hhome : HomeBehindPrefix languages page code ↔
      (Datum.field page.asMapping "path").isVoid ∧
        decide (code = languages.asMapping.keys.headD []) ∧
        (Datum.field (languageOf languages code).asMapping "prefix").isVoid = false := by
    constructor
    · intro h
      exact ⟨h.home, decide_eq_true ((headD_eq_iff hcode).2 h.first), h.prefixed⟩
    · rintro ⟨hpath, hdefault, hprefixed⟩
      exact ⟨hpath, (headD_eq_iff hcode).1 (of_decide_eq_true hdefault), hprefixed⟩
  rw [hhome, ← hurls, fullUrl_ownRecord, canonicalUrl_derivedValues]
  constructor
  · rintro ⟨url, hfull, hcanonical⟩
    have heq := Datum.str.inj (Option.some.inj (hfull.trans hcanonical.symm))
    rw [List.append_assoc] at heq
    exact List.append_cancel_left heq
  · intro heq
    refine ⟨_, rfl, ?_⟩
    rw [List.append_assoc]
    exact congrArg (fun u => some (Datum.str (_ ++ u))) heq.symm

/-- The home of the first language is listed as the root of the site, which is not its canonical
address where the language has a part of its own. -/
theorem ownRecord_of_home (site : Datum) (h : HomeBehindPrefix languages page code) :
    (ownRecord site languages page code).get? "fullUrl" =
        some (.str ((fieldOrEmpty site.asMapping "url").display ++ "/")) ∧
      (derivedValues site languages page code).get? "canonicalUrl" =
        some (.str ((fieldOrEmpty site.asMapping "url").display ++
          (Datum.field (languageOf languages code).asMapping "prefix").display ++ "/")) := by
  have hpath : (fieldOrEmpty page.asMapping "path").isVoid := Datum.isVoid_orElse.trans h.home
  have hbase : fieldOrEmpty (languageOf languages code).asMapping "prefix" =
      Datum.field (languageOf languages code).asMapping "prefix" := by
    rw [fieldOrEmpty, Datum.orElse, h.prefixed]
    rfl
  have hdefault : code = languages.asMapping.keys.headD [] := by
    rw [List.headD_eq_head?_getD, h.first]
    rfl
  rw [fullUrl_ownRecord, canonicalUrl_derivedValues, languageUrl, pathPart, if_pos hpath,
    if_pos hpath, if_pos (decide_eq_true hdefault), hbase, List.append_nil, List.append_assoc]
  exact ⟨rfl, rfl⟩

/-- The address that is listed for the language of a page is the canonical one, except for the home of
the first language where that has a part of its own in addresses: it is listed as the root of the
site. -/
theorem canonicalUrl_is_listed (hlanguages : languages.JsonLike) (hpage : page.JsonLike)
    (h : build site languages page = .ok m)
    (hswitcher : ("langSwitcher" : Text) ∉ (dataOf page).asMapping.keys)
    (hcanonical : ("canonicalUrl" : Text) ∉ (dataOf page).asMapping.keys) :
    ∃ code entry, ∃ entries : List (Mapping Datum), langOf page = .str code ∧
      m.get? "langSwitcher" = some (.list (entries.map .mapping)) ∧
      entries.filter isCurrent = [entry] ∧ Datum.field entry "code" = .str code ∧
      ((∃ url, entry.get? "fullUrl" = some url ∧ m.get? "canonicalUrl" = some url) ↔
        ¬ HomeBehindPrefix languages page code) ∧
      (HomeBehindPrefix languages page code →
        entry.get? "fullUrl" =
          some (.str ((fieldOrEmpty site.asMapping "url").display ++ "/")) ∧
        m.get? "canonicalUrl" = some (.str ((fieldOrEmpty site.asMapping "url").display ++
          (Datum.field (languageOf languages code).asMapping "prefix").display ++ "/"))) := by
  have hdata : (dataOf page).asMapping.Distinct := (hpage.asMapping.field "data").asMapping.distinct
  obtain ⟨code, hlang, hcode, rfl⟩ := build_cases h
  have hover := Mapping.overrides_merge hdata (derivedValues site languages page code)
  rw [hover.other _ hswitcher, hover.other _ hcanonical]
  refine ⟨code, ownRecord site languages page code, switcherRecords site languages page code, hlang,
    rfl, filter_isCurrent site page hlanguages.asMapping.distinct hcode, rfl,
    ownRecord_agrees_iff site page hcode, ownRecord_of_home site⟩

/-- A site with an address. -/
def namedSite : Datum := .mapping ⟨[("url", .str "https://example.com")]⟩

/-- Two languages, both with a part of their own in addresses. -/
def prefixedLanguages : Datum :=
  .mapping ⟨[("en", .mapping ⟨[("prefix", .str "/en")]⟩),
    ("de", .mapping ⟨[("prefix", .str "/de")]⟩)]⟩

/-- The home page in a language. -/
def homeIn (code : Text) : Datum := .mapping ⟨[("lang", .str code)]⟩

theorem jsonLike_prefixedLanguages : prefixedLanguages.JsonLike := by
  have hlanguage (base : Text) : (Datum.mapping ⟨[("prefix", .str base)]⟩).JsonLike :=
    .mapping (List.pairwise_singleton _ _) (List.forall_mem_singleton.2 (.str base))
  exact .mapping (by decide)
    (List.forall_mem_cons.2 ⟨hlanguage _, List.forall_mem_singleton.2 (hlanguage _)⟩)

theorem jsonLike_homeIn (code : Text) : (homeIn code).JsonLike :=
  .mapping (List.pairwise_singleton _ _) (List.forall_mem_singleton.2 (.str code))

/-- In the second language the home page is listed with its canonical address, and in the first one as
the root of the site. -/
theorem canonicalUrl_is_listed_homes :
    (∃ m entry, build namedSite prefixedLanguages (homeIn "de") = .ok m ∧
      (∃ entries : List (Mapping Datum),
        m.get? "langSwitcher" = some (.list (entries.map .mapping)) ∧
        entries.filter isCurrent = [entry]) ∧
      ∃ url, entry.get? "fullUrl" = some url ∧ m.get? "canonicalUrl" = some url) ∧
    ∃ m entry, build namedSite prefixedLanguages (homeIn "en") = .ok m ∧
      (∃ entries : List (Mapping Datum),
        m.get? "langSwitcher" = some (.list (entries.map .mapping)) ∧
        entries.filter isCurrent = [entry]) ∧
      entry.get? "fullUrl" = some (.str "https://example.com/") ∧
      m.get? "canonicalUrl" = some (.str "https://example.com/en/") := by
  constructor
  · have h : build namedSite prefixedLanguages (homeIn "de") =
        .ok (derivedValues namedSite prefixedLanguages (homeIn "de") "de") := rfl
    obtain ⟨code, entry, entries, hlang, hentries, hcurrent, -, hagrees, -⟩ :=
      canonicalUrl_is_listed jsonLike_prefixedLanguages (jsonLike_homeIn "de") h (by decide) (by decide)
    obtain rfl : ("de" : Text) = code := Datum.str.inj hlang
    refine ⟨_, entry, h, ⟨entries, hentries, hcurrent⟩, hagrees.2 ?_⟩
    intro hhome
    have hfirst : some ("en" : Text) = some "de" := hhome.first
    cases hfirst
  · have h : build namedSite prefixedLanguages (homeIn "en") =
        .ok (derivedValues namedSite prefixedLanguages (homeIn "en") "en") := rfl
    obtain ⟨code, entry, entries, hlang, hentries, hcurrent, -, -, hhome⟩ :=
      canonicalUrl_is_listed jsonLike_prefixedLanguages (jsonLike_homeIn "en") h (by decide) (by decide)
    obtain rfl : ("en" : Text) = code := Datum.str.inj hlang
    exact ⟨_, entry, h, ⟨entries, hentries, hcurrent⟩, hhome ⟨rfl, rfl, rfl⟩⟩

/-- In the first language, the root of the site is not the canonical address of the home page. -/
theorem not_listed_prefixedHome :
    ¬ ∀ (site languages page : Datum) (m : Mapping Datum), site.JsonLike → languages.JsonLike →
      page.JsonLike → build site languages page = .ok m →
      ("langSwitcher" : Text) ∉ (dataOf page).asMapping.keys →
      ("canonicalUrl" : Text) ∉ (dataOf page).asMapping.keys →
      ∃ entry, ∃ entries : List (Mapping Datum),
        m.get? "langSwitcher" = some (.list (entries.map .mapping)) ∧
        entries.filter isCurrent = [entry] ∧
        ∃ url, entry.get? "fullUrl" = some url ∧ m.get? "canonicalUrl" = some url := by
  intro hall
  have hsite : namedSite.JsonLike := .mapping (by decide) (List.forall_mem_singleton.2 (.str _))
  obtain ⟨entry, entries, hentries, hcurrent, hagrees⟩ := hall namedSite prefixedLanguages
    (homeIn "en") (derivedValues namedSite prefixedLanguages (homeIn "en") "en") hsite
    jsonLike_prefixedLanguages (jsonLike_homeIn "en") rfl (by decide) (by decide)
  have hlisted : (switcherRecords namedSite prefixedLanguages (homeIn "en") "en").map Datum.mapping =
      entries.map .mapping := Datum.list.inj (Option.some.inj hentries)
  obtain rfl := List.map_injective_iff.2 (fun _ _ => Datum.mapping.inj) hlisted
  have hcode : ("en" : Text) ∈ prefixedLanguages.asMapping.keys := List.mem_cons_self
  rw [filter_isCurrent _ _ jsonLike_prefixedLanguages.asMapping.distinct hcode] at hcurrent
  obtain rfl := (List.cons.inj hcurrent).1
  exact (ownRecord_agrees_iff namedSite (homeIn "en") hcode).1 hagrees ⟨rfl, rfl, rfl⟩

end PageContext
end Stencil
