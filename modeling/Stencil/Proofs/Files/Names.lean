import Mathlib.Tactic.SplitIfs
import Stencil.Files.Tree
/-! Names of files: which texts a path may have, and how a directory spells a name. Bytes that spell no
text are kept as surrogates, so that nothing is lost between a name and its bytes. -/
namespace Stencil

namespace Utf8

/-- The bytes that spell the character with a number. -/
inductive Spells : Nat → List UInt8 → Prop
  | one {a : UInt8} (ha : a.toNat < 0x80) : Spells a.toNat [a]
  | two {a b : UInt8} (ha : 0xc2 ≤ a.toNat ∧ a.toNat < 0xe0) (hb : second a b) :
    Spells ((a.toNat - 0xc0) * 64 + (b.toNat - 0x80)) [a, b]
  | three {a b d : UInt8} (ha : 0xe0 ≤ a.toNat ∧ a.toNat < 0xf0) (hb : second a b)
      (hd : continuation d) :
    Spells (((a.toNat - 0xe0) * 64 + (b.toNat - 0x80)) * 64 + (d.toNat - 0x80)) [a, b, d]
  | four {a b d e : UInt8} (ha : 0xf0 ≤ a.toNat ∧ a.toNat < 0xf5) (hb : second a b)
      (hd : continuation d) (he : continuation e) :
    Spells ((((a.toNat - 0xf0) * 64 + (b.toNat - 0x80)) * 64 + (d.toNat - 0x80)) * 64 +
      (e.toNat - 0x80)) [a, b, d, e]

variable {a b : UInt8} {rest more bs : List UInt8} {c : Char} {n : Nat}

theorem toNat_ofNat (h : n.isValidChar) : (Char.ofNat n).toNat = n := by
  rw [Char.ofNat, dif_pos h]
  rfl

theorem ofNat_eq (h : n = b.toNat) : UInt8.ofNat n = b := by
  rw [h, UInt8.ofNat_toNat]

theorem continuation_iff : continuation b = true ↔ 0x80 ≤ b.toNat ∧ b.toNat ≤ 0xbf := by
  simp only [continuation, Bool.and_eq_true, decide_eq_true_eq, UInt8.le_iff_toNat_le]
  rfl

/-- The second byte continues a character, and does not make it longer than needed, a surrogate or more
than the last character. -/
theorem second_bounds (h : second a b = true) : (0x80 ≤ b.toNat ∧ b.toNat ≤ 0xbf) ∧
    (a.toNat = 0xe0 → 0xa0 ≤ b.toNat) ∧ (a.toNat = 0xed → b.toNat ≤ 0x9f) ∧
    (a.toNat = 0xf0 → 0x90 ≤ b.toNat) ∧ (a.toNat = 0xf4 → b.toNat ≤ 0x8f) := by
  have hnat (k : UInt8) : a = k ↔ a.toNat = k.toNat := UInt8.toNat_inj.symm
  simp only [second, Bool.and_eq_true, decide_eq_true_eq, UInt8.le_iff_toNat_le, hnat] at h
  obtain ⟨hlow, hhigh⟩ := h
  simp only [UInt8.reduceToNat] at hlow hhigh
  split_ifs at hlow hhigh <;> simp only [UInt8.reduceToNat] at hlow hhigh <;> omega

/-- Writing the character gives its bytes back. -/
theorem Spells.encodeChar (h : Spells n bs) : encodeChar (Char.ofNat n) = bs := by
  have hpow : Nat.pow 64 0 = 1 ∧ Nat.pow 64 1 = 64 ∧ Nat.pow 64 2 = 4096 ∧ Nat.pow 64 3 = 262144 :=
    ⟨rfl, rfl, rfl, rfl⟩
  cases h with
  | @one a ha =>
    rw [Utf8.encodeChar, toNat_ofNat (.inl (by omega))]
    simp [ha]
  | @two a b ha hb =>
    obtain ⟨hb, -⟩ := second_bounds hb
    rw [Utf8.encodeChar, toNat_ofNat (.inl (by omega)), if_neg (by omega), if_pos (by omega)]
    simp only [hpow]
    rw [ofNat_eq (b := a) (by omega), ofNat_eq (b := b) (by omega)]
  | @three a b d ha hb hd =>
    obtain ⟨hb, hlow, hhigh, -⟩ := second_bounds hb
    have hd := continuation_iff.1 hd
    have hvalid : Nat.isValidChar
        (((a.toNat - 0xe0) * 64 + (b.toNat - 0x80)) * 64 + (d.toNat - 0x80)) := by
      unfold Nat.isValidChar
      omega
    rw [Utf8.encodeChar, toNat_ofNat hvalid, if_neg (by omega), if_neg (by omega),
      if_pos (by omega)]
    simp only [hpow]
    rw [ofNat_eq (b := a) (by omega), ofNat_eq (b := b) (by omega), ofNat_eq (b := d) (by omega)]
  | @four a b d e ha hb hd he =>
    obtain ⟨hb, -, -, hlow, hhigh⟩ := second_bounds hb
    have hd := continuation_iff.1 hd
    have he := continuation_iff.1 he
    have hvalid : Nat.isValidChar ((((a.toNat - 0xf0) * 64 + (b.toNat - 0x80)) * 64 +
        (d.toNat - 0x80)) * 64 + (e.toNat - 0x80)) := by
      unfold Nat.isValidChar
      omega
    rw [Utf8.encodeChar, toNat_ofNat hvalid, if_neg (by omega), if_neg (by omega),
      if_neg (by omega)]
    simp only [hpow]
    rw [ofNat_eq (b := a) (by omega), ofNat_eq (b := b) (by omega), ofNat_eq (b := d) (by omega),
      ofNat_eq (b := e) (by omega)]

theorem width_eq_some {w : Nat} (h : width? a = some w) :
    (w = 1 ∧ a.toNat < 0x80) ∨ (w = 2 ∧ 0xc2 ≤ a.toNat ∧ a.toNat < 0xe0) ∨
      (w = 3 ∧ 0xe0 ≤ a.toNat ∧ a.toNat < 0xf0) ∨ (w = 4 ∧ 0xf0 ≤ a.toNat ∧ a.toNat < 0xf5) := by
  simp only [width?, UInt8.lt_iff_toNat_lt, UInt8.reduceToNat] at h
  split_ifs at h <;> obtain rfl := Option.some.inj h <;> omega

/-- The bytes that fit behind the first: one in its range and then continuation bytes. -/
theorem exists_of_fitting {w : Nat} (h : fitting a (w + 2) rest + 1 = w + 2) :
    ∃ b ds more, rest = b :: ds ++ more ∧ ds.length = w ∧ second a b ∧ ∀ d ∈ ds, continuation d := by
  have hwidth : w + 2 - 1 = w + 1 := rfl
  unfold fitting at h
  rw [hwidth] at h
  cases rest with
  | nil => simp at h
  | cons b rest =>
    rw [List.take_succ_cons] at h
    dsimp only at h
    split at h
    · next hb =>
      have hlength : ((rest.take w).takeWhile continuation).length = w := by omega
      have htake : (rest.take w).takeWhile continuation = rest.take w :=
        (List.takeWhile_prefix _).eq_of_length_le (by rw [hlength]; exact List.length_take_le w rest)
      refine ⟨b, rest.take w, rest.drop w, by simp, htake ▸ hlength, hb, fun d hd => ?_⟩
      rw [← htake] at hd
      exact List.all_eq_true.1 List.all_takeWhile d hd
    · cases h

/-- What is read as the first character is spelled by the bytes that are used up. -/
theorem spells_of_readFirst (h : readFirst a rest = .ok (c, more)) :
    ∃ n tail, Spells n (a :: tail) ∧ c = Char.ofNat n ∧ rest = tail ++ more := by
  unfold readFirst at h
  split at h
  · cases h
  · next w hw =>
    dsimp only at h
    split at h
    · next hgood =>
      obtain ⟨rfl, rfl⟩ := Prod.mk.inj (Except.ok.inj h)
      obtain ⟨rfl, ha⟩ | ⟨rfl, ha⟩ | ⟨rfl, ha⟩ | ⟨rfl, ha⟩ := width_eq_some hw
      · have hnone : fitting a 1 rest = 0 := by omega
        exact ⟨_, [], .one ha, by rw [hnone]; rfl, by rw [hnone]; rfl⟩
      · obtain ⟨b, ds, more, rfl, hlength, hb, hds⟩ := exists_of_fitting hgood
        obtain rfl := List.length_eq_zero_iff.1 hlength
        rw [Nat.succ.inj hgood]
        exact ⟨_, [b], .two ha hb, rfl, rfl⟩
      · obtain ⟨b, ds, more, rfl, hlength, hb, hds⟩ := exists_of_fitting hgood
        obtain ⟨d, rfl⟩ := List.length_eq_one_iff.1 hlength
        rw [Nat.succ.inj hgood]
        exact ⟨_, [b, d], .three ha hb (hds d List.mem_cons_self), rfl, rfl⟩
      · obtain ⟨b, ds, more, rfl, hlength, hb, hds⟩ := exists_of_fitting hgood
        obtain ⟨d, ds, rfl⟩ := List.exists_cons_of_length_eq_add_one hlength
        obtain ⟨e, rfl⟩ := List.length_eq_one_iff.1 (Nat.succ.inj hlength)
        obtain ⟨hd, he⟩ := List.forall_mem_cons.1 hds
        rw [Nat.succ.inj hgood]
        exact ⟨_, [b, d, e], .four ha hb hd (he e List.mem_cons_self), rfl, rfl⟩
    · split at h <;> cases h

/-- A byte that starts no character is none of ASCII. -/
theorem le_of_readFirst {why : Cause × Nat} (h : readFirst a rest = .error why) : 0x80 ≤ a.toNat := by
  refine Nat.not_lt.1 fun hascii => ?_
  have hwidth : width? a = some 1 := by rw [width?, if_pos (UInt8.lt_iff_toNat_lt.2 hascii)]
  have hgood : fitting a 1 rest + 1 = 1 := rfl
  simp [readFirst, hwidth, hgood] at h

theorem encodeOne_escape (h : 0x80 ≤ a.toNat) : encodeOne (escape a) = [a] := by
  have ha := a.toNat_lt
  exact congrArg (· :: []) (ofNat_eq (by show 0x80 + (0x400 + a.toNat) % 0x80 = a.toNat; omega))

/-- Nothing is lost when bytes are read as a name. -/
theorem bytes_decodeName (bs : List UInt8) : bytes (decodeName bs) = bs := by
  fun_induction decodeName bs with
  | case1 => rfl
  | case2 a rest why hfirst ih =>
    rw [bytes, List.flatMap_cons, encodeOne_escape (le_of_readFirst hfirst)]
    exact congrArg (a :: ·) ih
  | case3 a rest c more hfirst _ ih =>
    obtain ⟨n, tail, hspells, rfl, rfl⟩ := spells_of_readFirst hfirst
    rw [bytes, List.flatMap_cons]
    show encodeChar (Char.ofNat n) ++ bytes (decodeName more) = _
    rw [hspells.encodeChar, ih]
    rfl

/-- The surrogates in such a name all stand for bytes. -/
theorem isEscape_of_mem_decodeName {p : CodePoint} (h : p ∈ decodeName bs) (hp : p.isSurrogate) :
    isEscape p := by
  fun_induction decodeName bs with
  | case1 => cases h
  | case2 a rest why hfirst ih =>
    rcases List.mem_cons.1 h with rfl | h
    · have ha := le_of_readFirst hfirst
      have hlt := a.toNat_lt
      simp only [isEscape, escape, Bool.and_eq_true, decide_eq_true_eq]
      omega
    · exact ih h
  | case3 a rest c more hfirst _ ih =>
    rcases List.mem_cons.1 h with rfl | h
    · cases hp
    · exact ih h

theorem faultFrom_eq_none_iff (allowed : CodePoint → Bool) (offset : Nat) (s : Text) :
    faultFrom allowed offset s = none ↔ ∀ p ∈ s, p.isSurrogate → allowed p := by
  induction s generalizing offset with
  | nil => simp [faultFrom]
  | cons p s ih =>
    rw [faultFrom, List.forall_mem_cons]
    split
    · next hp =>
      obtain ⟨hp, hnot⟩ := by simpa using hp
      simp [hp, hnot]
    · next hp =>
      rw [ih]
      refine (and_iff_right fun hsurrogate => ?_).symm
      simpa [hsurrogate] using hp

/-- The text of a file holds characters and no surrogates. -/
theorem encode_eq_ok_iff {s : Text} :
    encode s = .ok bs ↔ (∀ p ∈ s, p.isSurrogate = false) ∧ bs = bytes s := by
  have hnone := faultFrom_eq_none_iff (fun _ => false) 0 s
  simp only [Bool.false_eq_true, imp_false, Bool.not_eq_true] at hnone
  rw [← hnone, encode, contentFault?]
  cases faultFrom (fun _ => false) 0 s with
  | some fault => simp
  | none => simp [eq_comm]

/-- Only the NUL character has a zero among its bytes. -/
theorem eq_nul_of_zero_mem {p : CodePoint} (h : 0 ∈ encodeOne p) : p = '\x00' := by
  have hzero {k : Nat} (hk : 0 < k ∧ k < 256) : 0 ≠ UInt8.ofNat k := by
    intro h
    have h := congrArg UInt8.toNat h
    rw [UInt8.toNat_ofNat', Nat.mod_eq_of_lt hk.2] at h
    exact absurd h.symm (Nat.ne_of_gt hk.1)
  cases p with
  | surrogate n => exact absurd (List.mem_singleton.1 h) (hzero (by omega))
  | scalar c =>
    have hc : c.toNat < 0xd800 ∨ 0xdfff < c.toNat ∧ c.toNat < 0x110000 := c.valid
    have hpow : Nat.pow 64 0 = 1 ∧ Nat.pow 64 1 = 64 ∧ Nat.pow 64 2 = 4096 ∧
        Nat.pow 64 3 = 262144 := ⟨rfl, rfl, rfl, rfl⟩
    simp only [encodeOne, encodeChar, hpow] at h
    split_ifs at h with hone htwo hthree
    · by_cases hnul : c.toNat = 0
      · exact CodePoint.toNat_injective hnul
      · exact absurd (List.mem_singleton.1 h) (hzero (by omega))
    all_goals
      simp only [List.mem_cons, List.not_mem_nil, or_false] at h
    · rcases h with h | h <;> exact absurd h (hzero (by omega))
    · rcases h with h | h | h <;> exact absurd h (hzero (by omega))
    · rcases h with h | h | h | h <;> exact absurd h (hzero (by omega))

theorem exists_le_of_surrogate {p : CodePoint} (h : p.isSurrogate) :
    ∃ b ∈ encodeOne p, 0x80 ≤ b.toNat := by
  cases p with
  | scalar => cases h
  | surrogate n =>
    refine ⟨_, List.mem_cons_self, ?_⟩
    rw [UInt8.toNat_ofNat']
    omega

end Utf8

namespace FilePath

variable {path : FilePath} {name : Text}

/-- What may stand in a path: characters other than NUL, and surrogates that stand for bytes. -/
def Allowed (p : CodePoint) : Prop := (p.isSurrogate → Utf8.isEscape p) ∧ p ≠ '\x00'

instance (p : CodePoint) : Decidable (Allowed p) := inferInstanceAs (Decidable (_ ∧ _))

theorem fault?_eq_none_iff : path.fault? = none ↔ ∀ p ∈ path.text, Allowed p := by
  have hnone := Utf8.faultFrom_eq_none_iff Utf8.isEscape 0 path.text
  have hsplit : (∀ p ∈ path.text, Allowed p) ↔
      Utf8.faultFrom Utf8.isEscape 0 path.text = none ∧ ↑ '\x00' ∉ path.text := by
    rw [hnone]
    exact ⟨fun h => ⟨fun p hp => (h p hp).1, fun hnul => (h _ hnul).2 rfl⟩,
      fun ⟨hescape, hnul⟩ p hp => ⟨hescape p hp, fun heq => hnul (heq ▸ hp)⟩⟩
  rw [hsplit, fault?, Utf8.nameFault?]
  cases Utf8.faultFrom Utf8.isEscape 0 path.text with
  | some fault => simp
  | none => simp

/-- The bytes of a name are those of its spelling. -/
theorem bytes_spelled (name : Text) : Utf8.bytes (spelled name) = Utf8.bytes name := by
  unfold spelled
  split
  · exact Utf8.bytes_decodeName _
  · rfl

theorem spelled_of_notMem (h : ∀ p ∈ name, p.isSurrogate = false) : spelled name = name := by
  rw [spelled, if_neg]
  simpa using h

theorem entryNames_of_characters (h : ∀ name ∈ path.names, ∀ p ∈ name, p.isSurrogate = false) :
    path.entryNames = path.names :=
  (List.map_congr_left fun name hname => spelled_of_notMem (h name hname)).trans (List.map_id _)

/-- There is one spelling for the bytes of a name. -/
theorem spelled_spelled (name : Text) : spelled (spelled name) = spelled name := by
  by_cases h : name.any CodePoint.isSurrogate
  · have hspelled : spelled name = Utf8.decodeName (Utf8.bytes name) := if_pos h
    by_cases h' : (spelled name).any CodePoint.isSurrogate
    · have hagain : spelled (spelled name) = Utf8.decodeName (Utf8.bytes (spelled name)) := if_pos h'
      rw [hagain, bytes_spelled, hspelled]
    · exact if_neg h'
  · have hspelled : spelled name = name := if_neg h
    rw [hspelled, hspelled]

theorem allowed_spelled (h : ∀ p ∈ name, Allowed p) : ∀ p ∈ spelled name, Allowed p := by
  by_cases hsurrogate : name.any CodePoint.isSurrogate
  · have hspelled : spelled name = Utf8.decodeName (Utf8.bytes name) := if_pos hsurrogate
    refine fun p hp => ⟨Utf8.isEscape_of_mem_decodeName (hspelled ▸ hp), ?_⟩
    rintro rfl
    have hzero : 0 ∈ Utf8.bytes (spelled name) := List.mem_flatMap.2 ⟨_, hp, by decide⟩
    rw [bytes_spelled] at hzero
    obtain ⟨p, hp, hzero⟩ := List.mem_flatMap.1 hzero
    exact (h p hp).2 (Utf8.eq_nul_of_zero_mem hzero)
  · rwa [spelled, if_neg hsurrogate]

/-- The name that leads to the directory above has no other spelling. -/
theorem spelled_eq_parentName_iff : spelled name = FileTree.parentName ↔ name = FileTree.parentName := by
  constructor
  · intro h
    by_cases hsurrogate : name.any CodePoint.isSurrogate
    · obtain ⟨p, hp, hsurrogate⟩ := List.any_eq_true.1 hsurrogate
      obtain ⟨b, hb, hle⟩ := Utf8.exists_le_of_surrogate hsurrogate
      have hbytes : b ∈ Utf8.bytes FileTree.parentName := by
        rw [← h, bytes_spelled]
        exact List.mem_flatMap.2 ⟨p, hp, hb⟩
      have hdots : Utf8.bytes FileTree.parentName = [0x2e, 0x2e] := rfl
      have hdot : b = 0x2e := by simpa [hdots] using hbytes
      exact absurd (hdot ▸ hle) (by decide)
    · exact (if_neg hsurrogate : spelled name = name).symm.trans h
  · rintro rfl
    rfl

end FilePath
end Stencil
