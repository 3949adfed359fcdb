import Stencil.Proofs.Datum.Exact
import Stencil.Proofs.Json.Scalar
/-! Reading undoes writing: exact data are read back from their document, in whatever layout it is
written. -/
namespace Stencil

namespace Json

variable {limit : Option Nat} {layout : Layout} {level outer fuel : Nat} {s t text rest : Text}
  {d : Datum} {ds : List Datum} {es : List (Text × Datum)} {c : CodePoint}

/-- A layout whose indentation is blank for a reader. -/
def Layout.Blank : Layout → Prop
  | .indented unit => ∀ c ∈ unit, isSpace c
  | _ => True

/-- A text that a reader takes for the beginning of something. -/
def Opens (s : Text) : Prop :=
  ∃ c t, s = c :: t ∧ isSpace c = false ∧ c ≠ ']' ∧ c ≠ '\x7d' ∧ c ≠ '\ufeff'

theorem Opens.append (h : Opens s) (t : Text) : Opens (s ++ t) := by
  obtain ⟨c, s, rfl, hc⟩ := h
  exact ⟨c, s ++ t, rfl, hc⟩

theorem Opens.length_pos (h : Opens s) : 0 < s.length := by
  obtain ⟨c, s, rfl, -⟩ := h
  exact Nat.succ_pos s.length

theorem Opens.skipSpaces (h : Opens s) : skipSpaces s = s := by
  obtain ⟨c, s, rfl, hc, -⟩ := h
  simp [Json.skipSpaces, hc]

theorem skipSpaces_append (hs : ∀ c ∈ s, isSpace c) (t : Text) :
    skipSpaces (s ++ t) = skipSpaces t := List.dropWhile_append_of_pos hs

theorem Layout.Blank.newline (h : layout.Blank) (level : Nat) :
    ∀ c ∈ layout.newline level, isSpace c := by
  cases layout with
  | compact | oneLine => exact nofun
  | indented unit =>
    refine List.forall_mem_cons.2 ⟨rfl, fun c hc => ?_⟩
    obtain ⟨part, hpart, hc⟩ := List.mem_flatten.1 hc
    exact h c (List.eq_of_mem_replicate hpart ▸ hc)

/-- What stands between two items at a level. -/
def Layout.separator (layout : Layout) (level : Nat) : Text := layout.comma ++ layout.newline level

/-- It is a comma with blanks after it. -/
theorem Layout.Blank.exists_separator (h : layout.Blank) (level : Nat) :
    ∃ gap, layout.separator level = ↑ ',' :: gap ∧ ∀ c ∈ gap, isSpace c := by
  cases layout with
  | compact => exact ⟨[], rfl, nofun⟩
  | oneLine => exact ⟨[' '], rfl, List.forall_mem_singleton.2 rfl⟩
  | indented unit => exact ⟨_, rfl, h.newline level⟩

theorem Layout.exists_colon (layout : Layout) :
    ∃ gap, layout.colon = ↑ ':' :: gap ∧ ∀ c ∈ gap, isSpace c := by
  cases layout with
  | compact => exact ⟨[], rfl, nofun⟩
  | oneLine | indented => exact ⟨[' '], rfl, List.forall_mem_singleton.2 rfl⟩

/-- The end of an array or object. -/
theorem skipSpaces_closing (h : layout.Blank) (hc : isSpace c = false) (outer : Nat) (rest : Text) :
    skipSpaces (layout.newline outer ++ c :: rest) = c :: rest := by
  rw [skipSpaces_append (h.newline outer)]
  simp [skipSpaces, hc]

theorem ends_closing (layout : Layout) (outer : Nat) (hc : c = ']' ∨ c = '\x7d') (rest : Text) :
    Ends (layout.newline outer ++ c :: rest) := by
  cases layout with
  | compact | oneLine =>
    rintro d ⟨⟩
    exact .inr (hc.imp_right .inl)
  | indented =>
    rintro d ⟨⟩
    exact .inr (.inr (.inr rfl))

/-- Data that are read back from a document of them, in every layout and in front of whatever can
follow. -/
structure ReadsBack (limit : Option Nat) (d : Datum) : Prop where
  opens (layout : Layout) (level : Nat) : Opens (writeAt layout level d)
  read {layout : Layout} (hlayout : layout.Blank) (level : Nat) {fuel : Nat}
    (hfuel : 2 * (writeAt layout level d).length ≤ fuel + 1) {rest : Text} (hrest : Ends rest) :
    readValue limit fuel (writeAt layout level d ++ rest) = .ok (d, rest)

theorem writeItems_eq_map (layout : Layout) (level : Nat) (ds : List Datum) :
    writeItems layout level ds = ds.map (writeAt layout level) := by
  induction ds with
  | nil => rfl
  | cons d ds ih => rw [writeItems, ih, List.map_cons]

/-- A member of an object: its name and its value. -/
def member (layout : Layout) (level : Nat) (e : Text × Datum) : Text :=
  string e.1 ++ layout.colon ++ writeAt layout level e.2

theorem writeEntries_eq_map (layout : Layout) (level : Nat) (es : List (Text × Datum)) :
    writeEntries layout level es = es.map (member layout level) := by
  induction es with
  | nil => rfl
  | cons e es ih => rw [writeEntries, ih, List.map_cons, member]

theorem opens_string (s : Text) : Opens (string s) := ⟨'"', _, rfl, by decide⟩

theorem opens_join (sep : Text) {texts : List Text} (h : ∀ t ∈ texts, Opens t) (hne : texts ≠ []) :
    Opens (Text.join sep texts) := by
  cases texts with
  | nil => exact absurd rfl hne
  | cons t texts =>
    have ht := h t List.mem_cons_self
    cases texts with
    | nil => exact ht
    | cons => exact (ht.append sep).append _

theorem join_cons_of_ne_nil {texts : List Text} (h : texts ≠ []) (sep t : Text) :
    Text.join sep (t :: texts) = t ++ (sep ++ Text.join sep texts) := by
  cases texts with
  | nil => exact absurd rfl h
  | cons u texts => exact List.append_assoc t sep _

/-- After an item comes the closing bracket, or a comma and the other items. -/
theorem exists_tail {texts : List Text} (hlayout : layout.Blank) (hopens : ∀ t ∈ texts, Opens t)
    (hc : c = ']' ∨ c = '\x7d') (level outer : Nat) (t rest : Text) :
    ∃ tail, Ends tail ∧
      Text.join (layout.separator level) (t :: texts) ++ (layout.newline outer ++ c :: rest) =
        t ++ tail ∧
      (texts = [] ∧ skipSpaces tail = c :: rest ∨
        texts ≠ [] ∧ ∃ more, skipSpaces tail = ↑ ',' :: more ∧ skipSpaces more =
          Text.join (layout.separator level) texts ++ (layout.newline outer ++ c :: rest)) := by
  by_cases hlast : texts = []
  · subst hlast
    have hspace : isSpace c = false := by rcases hc with rfl | rfl <;> rfl
    exact ⟨_, ends_closing layout outer hc rest, rfl,
      .inl ⟨rfl, skipSpaces_closing hlayout hspace outer rest⟩⟩
  · obtain ⟨gap, hsep, hgap⟩ := hlayout.exists_separator level
    have hnext := opens_join (layout.separator level) hopens hlast
    refine ⟨↑ ',' :: (gap ++ (Text.join (layout.separator level) texts ++
      (layout.newline outer ++ c :: rest))), ?_, ?_, .inr ⟨hlast, _, rfl, ?_⟩⟩
    · rintro d ⟨⟩
      exact .inl rfl
    · rw [join_cons_of_ne_nil hlast, hsep]
      simp only [List.append_assoc, List.cons_append]
    · rw [skipSpaces_append hgap, (hnext.append _).skipSpaces]

/-- The other items take less room than all of them. -/
theorem length_join_cons (hlayout : layout.Blank) (level : Nat) (t : Text) (texts : List Text) :
    t.length ≤ (Text.join (layout.separator level) (t :: texts)).length ∧
      (texts ≠ [] → (Text.join (layout.separator level) texts).length <
        (Text.join (layout.separator level) (t :: texts)).length) := by
  by_cases hlast : texts = []
  · subst hlast
    exact ⟨Nat.le_refl _, absurd rfl⟩
  · have hsep : 0 < (layout.separator level).length := by
      obtain ⟨gap, hsep, -⟩ := hlayout.exists_separator level
      rw [hsep]
      exact Nat.succ_pos gap.length
    rw [join_cons_of_ne_nil hlast, List.length_append, List.length_append]
    exact ⟨by omega, fun _ => by omega⟩

/-- The items of an array are read back up to its bracket. -/
theorem readItems_join (hlayout : layout.Blank) (hds : ∀ d ∈ ds, ReadsBack limit d) (hne : ds ≠ [])
    (hfuel : 2 * (Text.join (layout.separator level) (ds.map (writeAt layout level))).length ≤ fuel)
    (outer : Nat) (rest : Text) :
    readItems limit fuel (Text.join (layout.separator level) (ds.map (writeAt layout level)) ++
      (layout.newline outer ++ ↑ ']' :: rest)) = .ok (ds, rest) := by
  have hopens : ∀ t ∈ ds.map (writeAt layout level), Opens t :=
    List.forall_mem_map.2 fun d hd => (hds d hd).opens layout level
  induction ds generalizing fuel with
  | nil => exact absurd rfl hne
  | cons d ds ih =>
    have hpos := (opens_join (layout.separator level) hopens nofun).length_pos
    obtain ⟨fuel, rfl⟩ := Nat.exists_eq_add_one.2 (show 0 < fuel by omega)
    obtain ⟨hd, hds⟩ := List.forall_mem_cons.1 hds
    obtain ⟨-, hopens⟩ := List.forall_mem_cons.1 hopens
    obtain ⟨hfirst, hothers⟩ := length_join_cons hlayout level (writeAt layout level d)
      (ds.map (writeAt layout level))
    obtain ⟨tail, hends, htail, hcases⟩ := exists_tail hlayout hopens (c := ']') (.inl rfl) level
      outer (writeAt layout level d) rest
    rw [List.map_cons] at hfuel ⊢
    rw [htail, readItems, hd.read hlayout level (by omega) hends]
    rcases hcases with ⟨hlast, hskip⟩ | ⟨hmore, more, hskip, hskipMore⟩
    · simp only [hskip, List.map_eq_nil_iff.1 hlast]
    · have hless := hothers hmore
      have hroom : 2 * (Text.join (layout.separator level)
        (ds.map (writeAt layout level))).length ≤ fuel := by omega
      have hread := ih hds (mt List.map_eq_nil_iff.2 hmore) hroom hopens
      simp only [hskip, hskipMore, hread]

theorem opens_member (layout : Layout) (level : Nat) (e : Text × Datum) :
    Opens (member layout level e) := by
  rw [member, List.append_assoc]
  exact (opens_string e.1).append _

/-- The members of an object are read back up to its brace. -/
theorem readMembers_join (hlayout : layout.Blank) (hes : ∀ e ∈ es, ReadsBack limit e.2)
    (hne : es ≠ [])
    (hfuel : 2 * (Text.join (layout.separator level) (es.map (member layout level))).length ≤ fuel)
    (outer : Nat) (rest : Text) :
    readMembers limit fuel (Text.join (layout.separator level) (es.map (member layout level)) ++
      (layout.newline outer ++ ↑ '\x7d' :: rest)) = .ok (es, rest) := by
  have hopens : ∀ t ∈ es.map (member layout level), Opens t :=
    List.forall_mem_map.2 fun e _ => opens_member layout level e
  induction es generalizing fuel with
  | nil => exact absurd rfl hne
  | cons e es ih =>
    obtain ⟨key, d⟩ := e
    have hpos := (opens_join (layout.separator level) hopens nofun).length_pos
    obtain ⟨fuel, rfl⟩ := Nat.exists_eq_add_one.2 (show 0 < fuel by omega)
    obtain ⟨hd, hes⟩ : ReadsBack limit d ∧ ∀ e ∈ es, ReadsBack limit e.2 :=
      List.forall_mem_cons.1 hes
    obtain ⟨-, hopens⟩ := List.forall_mem_cons.1 hopens
    obtain ⟨hfirst, hothers⟩ := length_join_cons hlayout level (member layout level (key, d))
      (es.map (member layout level))
    obtain ⟨tail, hends, htail, hcases⟩ := exists_tail hlayout hopens (c := '\x7d') (.inr rfl) level
      outer (member layout level (key, d)) rest
    obtain ⟨gap, hcolon, hgap⟩ := layout.exists_colon
    have hvalue : (writeAt layout level d).length ≤ (member layout level (key, d)).length := by
      rw [member, List.length_append]
      exact Nat.le_add_left _ _
    have hmember : member layout level (key, d) ++ tail = ↑ '"' :: (key.flatMap escapeChar ++
        ↑ '"' :: ↑ ':' :: (gap ++ (writeAt layout level d ++ tail))) := by
      simp only [member, string, hcolon, List.append_assoc, List.cons_append, List.nil_append]
    have hspaces : skipSpaces (gap ++ (writeAt layout level d ++ tail)) =
        writeAt layout level d ++ tail := by
      rw [skipSpaces_append hgap, ((hd.opens layout level).append tail).skipSpaces]
    have hskipColon (s : Text) : skipSpaces (↑ ':' :: s) = ↑ ':' :: s := rfl
    rw [List.map_cons] at hfuel ⊢
    have hread : readValue limit fuel (writeAt layout level d ++ tail) = .ok (d, tail) :=
      hd.read hlayout level (by omega) hends
    rw [htail, hmember, readMembers]
    simp only [readString_string, hskipColon, hspaces, hread]
    rcases hcases with ⟨hlast, hskip⟩ | ⟨hmore, more, hskip, hskipMore⟩
    · simp only [hskip, List.map_eq_nil_iff.1 hlast]
    · have hless := hothers hmore
      have hroom : 2 * (Text.join (layout.separator level)
        (es.map (member layout level))).length ≤ fuel := by omega
      have hread := ih hes (mt List.map_eq_nil_iff.2 hmore) hroom hopens
      simp only [hskip, hskipMore, hread]

theorem exists_fuel (hs : Opens s) (hfuel : 2 * s.length ≤ fuel + 1) : ∃ n, fuel = n + 1 := by
  have hpos := hs.length_pos
  exact Nat.exists_eq_add_one.2 (by omega)

/-- Items between brackets, each on its own or none at all. -/
theorem enclose_append (layout : Layout) (level : Nat) {texts : List Text} (hne : texts ≠ [])
    (opening closing : CodePoint) (rest : Text) : enclose layout level opening closing texts ++ rest =
      opening :: (layout.newline (level + 1) ++ (Text.join (layout.separator (level + 1)) texts ++
        (layout.newline level ++ closing :: rest))) := by
  rw [enclose, if_neg (by simpa using hne)]
  simp only [Layout.separator, List.append_assoc, List.cons_append, List.nil_append]

theorem length_enclose (layout : Layout) (level : Nat) {texts : List Text} (hne : texts ≠ [])
    (opening closing : CodePoint) :
    (Text.join (layout.separator (level + 1)) texts).length + 2 ≤
      (enclose layout level opening closing texts).length := by
  have h := congrArg List.length (enclose_append layout level hne opening closing [])
  simp only [List.append_nil, List.length_cons, List.length_append, List.length_nil] at h
  omega

/-- Between brackets with items a reader comes to the first item, and the items take less room than
the whole. -/
theorem exists_inside (hlayout : layout.Blank) (level : Nat) {texts : List Text}
    (hopens : ∀ t ∈ texts, Opens t) (hne : texts ≠ []) (opening closing : CodePoint) (rest : Text)
    (hfuel : 2 * (enclose layout level opening closing texts).length ≤ fuel + 1 + 1) :
    ∃ inside c t, enclose layout level opening closing texts ++ rest = opening :: inside ∧
      skipSpaces inside = c :: t ∧ c ≠ ']' ∧ c ≠ '\x7d' ∧
      c :: t = Text.join (layout.separator (level + 1)) texts ++
        (layout.newline level ++ closing :: rest) ∧
      2 * (Text.join (layout.separator (level + 1)) texts).length ≤ fuel := by
  have hitems := opens_join (layout.separator (level + 1)) hopens hne
  have hlength := length_enclose layout level hne opening closing
  have hskip := (hitems.append (layout.newline level ++ closing :: rest)).skipSpaces
  obtain ⟨c, t, hjoin, -, hbracket, hbrace, -⟩ := hitems
  refine ⟨_, c, _, enclose_append layout level hne opening closing rest, ?_, hbracket, hbrace,
    by rw [hjoin]; rfl, by omega⟩
  rw [skipSpaces_append (hlayout.newline (level + 1)), hskip, hjoin]
  rfl

theorem opens_enclose {opening closing : CodePoint} (hopening : Opens [opening]) (texts : List Text) :
    Opens (enclose layout level opening closing texts) := by
  unfold enclose
  split
  · exact hopening.append [closing]
  · simp only [List.cons_append]
    exact hopening.append _

namespace ReadsBack

variable {m : Mapping Datum}

/-- A word or a number. -/
theorem of_readScalar (hopens : ∀ layout level, Opens (writeAt layout level d))
    (hhead : ∀ layout level, ∀ c ∈ (writeAt layout level d).head?, c ≠ '"' ∧ c ≠ '[' ∧ c ≠ '\x7b')
    (hread : ∀ layout level rest, Ends rest →
      readScalar limit (writeAt layout level d ++ rest) = .ok (d, rest)) : ReadsBack limit d := by
  refine ⟨hopens, fun {layout} _ level {fuel} hfuel {rest} hrest => ?_⟩
  obtain ⟨fuel, rfl⟩ := exists_fuel (hopens layout level) hfuel
  obtain ⟨c, s, hs, -⟩ := hopens layout level
  have hc := hhead layout level c (by rw [hs]; rfl)
  have hscalar := hread layout level rest hrest
  rw [hs, List.cons_append] at hscalar ⊢
  rw [readValue.eq_def]
  simp only
  split
  · next heq => exact absurd (List.cons.inj heq).1 hc.1
  · next heq => exact absurd (List.cons.inj heq).1 hc.2.1
  · next heq => exact absurd (List.cons.inj heq).1 hc.2.2
  · exact hscalar

theorem null : ReadsBack limit .null := by
  refine .of_readScalar (fun _ _ => ⟨'n', _, rfl, by decide⟩) ?_ fun _ _ rest _ =>
    readScalar_null limit rest
  rintro _ _ c ⟨⟩
  decide

theorem bool (b : Bool) : ReadsBack limit (.bool b) := by
  refine .of_readScalar ?_ ?_ fun _ _ rest _ => readScalar_bool limit b rest
  · cases b
    · exact fun _ _ => ⟨'f', _, rfl, by decide⟩
    · exact fun _ _ => ⟨'t', _, rfl, by decide⟩
  · cases b <;> rintro _ _ c ⟨⟩ <;> decide

theorem int {n : Int} (hn : WithinDigits limit n) : ReadsBack limit (.int n) := by
  obtain ⟨c, t, htext, hc⟩ : ∃ c t, Text.ofInt n = c :: t ∧ (Text.isAsciiDigit c ∨ c = '-') := by
    cases n with
    | ofNat n =>
      obtain ⟨c, t, htext, hc⟩ := Text.exists_ofNat_eq n
      exact ⟨c, t, htext, .inl hc⟩
    | negSucc n => exact ⟨'-', _, rfl, .inr rfl⟩
  have hne (d : CodePoint) (hd : Text.isAsciiDigit d = false) (hminus : d ≠ '-') : c ≠ d := by
    rcases hc with hc | rfl
    · exact (Text.ne_digit hd hc).symm
    · exact hminus.symm
  refine .of_readScalar (fun _ _ => ⟨c, t, htext, ?_, hne ']' rfl (by decide),
    hne '\x7d' rfl (by decide), hne '\ufeff' rfl (by decide)⟩) ?_ fun _ _ _ hrest => readScalar_ofInt hrest hn
  · simp [isSpace, hne ' ' rfl (by decide), hne '\t' rfl (by decide), hne '\n' rfl (by decide),
      hne '\r' rfl (by decide)]
  · intro _ _ d hd
    rw [writeAt, htext] at hd
    obtain rfl := Option.some.inj hd
    exact ⟨hne '"' rfl (by decide), hne '[' rfl (by decide), hne '\x7b' rfl (by decide)⟩

theorem str (s : Text) : ReadsBack limit (.str s) := by
  refine ⟨fun _ _ => opens_string s, fun {layout} _ level {fuel} hfuel {rest} _ => ?_⟩
  obtain ⟨fuel, rfl⟩ := exists_fuel (opens_string s) hfuel
  have hstring : writeAt layout level (.str s) ++ rest =
      ↑ '"' :: (s.flatMap escapeChar ++ ↑ '"' :: rest) := by
    simp only [writeAt, string, List.append_assoc, List.cons_append, List.nil_append]
  rw [hstring, readValue]
  simp only [readString_string]

theorem list (h : ∀ d ∈ ds, ReadsBack limit d) : ReadsBack limit (.list ds) := by
  have hopens (layout : Layout) (level : Nat) : Opens (writeAt layout level (.list ds)) :=
    opens_enclose ⟨'[', [], rfl, by decide⟩ _
  refine ⟨hopens, fun {layout} hlayout level {fuel} hfuel {rest} hrest => ?_⟩
  obtain ⟨fuel, rfl⟩ := exists_fuel (hopens layout level) hfuel
  rw [writeAt, writeItems_eq_map] at hfuel ⊢
  by_cases hne : ds = []
  · subst hne
    rfl
  · have hitems : ∀ t ∈ ds.map (writeAt layout (level + 1)), Opens t :=
      List.forall_mem_map.2 fun d hd => (h d hd).opens layout (level + 1)
    obtain ⟨inside, c, t, henclose, hskip, hbracket, -, hinside, hroom⟩ := exists_inside hlayout level
      hitems (mt List.map_eq_nil_iff.1 hne) '[' ']' rest hfuel
    have hread := readItems_join hlayout h hne hroom level rest
    rw [← hinside] at hread
    rw [henclose, readValue]
    simp only [hskip]
    split
    · next heq => exact absurd (List.cons.inj heq).1 hbracket
    · rw [hread]

theorem mapping (hm : m.Distinct) (h : ∀ e ∈ m.entries, ReadsBack limit e.2) :
    ReadsBack limit (.mapping m) := by
  obtain ⟨es⟩ := m
  have hopens (layout : Layout) (level : Nat) : Opens (writeAt layout level (.mapping ⟨es⟩)) :=
    opens_enclose ⟨'\x7b', [], rfl, by decide⟩ _
  refine ⟨hopens, fun {layout} hlayout level {fuel} hfuel {rest} hrest => ?_⟩
  obtain ⟨fuel, rfl⟩ := exists_fuel (hopens layout level) hfuel
  rw [writeAt, writeEntries_eq_map] at hfuel ⊢
  by_cases hne : es = []
  · subst hne
    rfl
  · have hmembers : ∀ t ∈ es.map (member layout (level + 1)), Opens t :=
      List.forall_mem_map.2 fun e _ => opens_member layout (level + 1) e
    obtain ⟨inside, c, t, henclose, hskip, -, hbrace, hinside, hroom⟩ := exists_inside hlayout level
      hmembers (mt List.map_eq_nil_iff.1 hne) '\x7b' '\x7d' rest hfuel
    have hread := readMembers_join hlayout h hne hroom level rest
    rw [← hinside] at hread
    rw [henclose, readValue]
    simp only [hskip]
    split
    · next heq => exact absurd (List.cons.inj heq).1 hbrace
    · simp only [hread, Mapping.ofList_entries hm]

end ReadsBack

/-- Data whose integers all have no more digits than the limit. -/
def WithinLimit (limit : Option Nat) (d : Datum) : Prop :=
  ∀ n, d.HasInteger n → WithinDigits limit n

theorem readsBack (h : d.Exact) (hlimit : WithinLimit limit d) : ReadsBack limit d := by
  induction h with
  | null => exact .null
  | bool b => exact .bool b
  | int n => exact .int (hlimit n .here)
  | str s => exact .str s
  | list _ ih => exact .list fun d hd => ih d hd fun n hn => hlimit n (.list hd hn)
  | mapping distinct _ ih =>
    exact .mapping distinct fun e he => ih e he fun n hn => hlimit n (.mapping he hn)

/-- Exact data are read back from their document. -/
theorem read_write (hlayout : layout.Blank) (h : d.Exact) (hlimit : WithinLimit limit d) :
    read limit (write layout d) = .ok d := by
  have hd := readsBack h hlimit
  have hopens : Opens (write layout d) := hd.opens layout 0
  have hvalue : readValue limit (2 * (write layout d).length + 1) (write layout d) = .ok (d, []) := by
    have hends : Ends [] := nofun
    have hroom : 2 * (write layout d).length ≤ 2 * (write layout d).length + 1 + 1 := by omega
    have hread := hd.read hlayout 0 hroom hends
    rwa [List.append_nil] at hread
  have hdocument : readDocument limit (write layout d) = .ok d := by
    unfold readDocument
    split
    · next t hmark =>
      obtain ⟨c, s, hc, -, -, -, hne⟩ := hopens
      exact absurd (List.cons.inj (hc.symm.trans hmark)).1 hne
    · rw [hopens.skipSpaces, hvalue]
      rfl
  rw [read, hdocument]
  rfl

/-- A text in which a reader finds a value, without a limit on the digits of integers and with every
limit that the integers of the value keep to. -/
def ReadsAs (text : Text) (d : Datum) : Prop :=
  ∀ limit, WithinLimit limit d → read limit text = .ok d

theorem ReadsAs.read (h : ReadsAs text d) : Json.read none text = .ok d := h none fun _ _ => nofun

theorem readsAs_write (hlayout : layout.Blank) (h : d.Exact) : ReadsAs (write layout d) d :=
  fun _ => read_write hlayout h

end Json
end Stencil
