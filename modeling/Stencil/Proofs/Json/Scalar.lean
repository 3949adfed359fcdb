import Mathlib.Tactic.SplitIfs
import Stencil.Json.Read
import Stencil.Json.Write
import Stencil.Proofs.Text.Numeral
/-! Strings, words and whole numbers as they are written in a document, read back. -/
namespace Stencil

namespace Json

variable {limit : Option Nat} {c : CodePoint} {n : Nat} {s t text rest whole : Text}

theorem hexValue?_digitChar (h : n < 16) : hexValue? n.digitChar = some n := by
  revert n
  decide

theorem ofHex_of_control (h : n < 0x20) :
    Text.ofHex 4 n = [↑ '0', ↑ '0', ↑(n / 16).digitChar, ↑(n % 16).digitChar] := by
  revert n
  decide

/-- The escape of a control character. -/
theorem readUnicode_ofHex (hc : c.toNat < 0x20) (hs : s ≠ []) :
    readUnicode (Text.ofHex 4 c.toNat ++ s) = .ok (c, s) := by
  obtain ⟨e, more, rfl⟩ := List.exists_cons_of_ne_nil hs
  have hunit : hexUnit? (Text.ofHex 4 c.toNat ++ e :: more) = some (c.toNat, e :: more) := by
    rw [ofHex_of_control hc]
    have hzero : hexValue? '0' = some 0 := rfl
    have hhigh := hexValue?_digitChar (n := c.toNat / 16) (by omega)
    have hlow := hexValue?_digitChar (n := c.toNat % 16) (by omega)
    simp only [List.cons_append, List.nil_append, hexUnit?, hzero, hhigh, hlow, Option.bind_eq_bind,
      Option.bind_some, Option.pure_def, Option.some.injEq, Prod.mk.injEq, and_true]
    omega
  have hhigh : isHighUnit c.toNat = false := by simp [isHighUnit]; omega
  rw [readUnicode, hunit]
  simp [hhigh, CodePoint.ofNat_toNat]

/-- How a character can stand in a string. -/
inductive Escape (c : CodePoint) : Text → Prop
  | short {e : CodePoint} (hc : shortEscape? e = some c) : Escape c ['\\', e]
  | unicode (hcontrol : c.toNat < 0x20) : Escape c ('\\' :: 'u' :: Text.ofHex 4 c.toNat)
  | plain (hquote : c ≠ '"') (hbackslash : c ≠ '\\') (hcontrol : ¬ c.toNat < 0x20) : Escape c [c]

theorem escape_escapeChar (c : CodePoint) : Escape c (escapeChar c) := by
  have hof {n : Nat} (h : c.toNat = n) : c = CodePoint.ofNat n := by rw [← h, c.ofNat_toNat]
  unfold escapeChar
  split_ifs with hquote hbackslash hnewline hreturn htab hfeed hback hcontrol
  · exact .short (by rw [hquote]; rfl)
  · exact .short (by rw [hbackslash]; rfl)
  · exact .short (by rw [hnewline]; rfl)
  · exact .short (by rw [hreturn]; rfl)
  · exact .short (by rw [htab]; rfl)
  · exact .short (by rw [hof hfeed]; rfl)
  · exact .short (by rw [hof hback]; rfl)
  · exact .unicode hcontrol
  · exact .plain hquote hbackslash hcontrol

/-- Whatever is read as a string, an escaped character in front of it comes first in the string. -/
theorem Escape.readString (h : Escape c s) (hread : readString whole t = .ok (text, rest)) :
    Json.readString whole (s ++ t) = .ok (c :: text, rest) := by
  cases h with
  | @short e hc =>
    have hu : e ≠ 'u' := by
      rintro rfl
      cases hc
    simp only [List.cons_append, List.nil_append]
    rw [Json.readString.eq_5 _ _ _ hu, hc, hread]
  | unicode hcontrol =>
    have ht : t ≠ [] := by
      rintro rfl
      simp [Json.readString] at hread
    have hunicode := readUnicode_ofHex hcontrol ht
    simp only [List.cons_append]
    rw [Json.readString.eq_4]
    split
    · next stuck herror =>
      rw [hunicode] at herror
      cases herror
    · next found after hfound =>
      rw [hunicode] at hfound
      obtain ⟨rfl, rfl⟩ := Prod.mk.inj (Except.ok.inj hfound)
      simp only [hread]
  | plain hquote hbackslash hcontrol =>
    simp only [List.cons_append, List.nil_append]
    rw [Json.readString.eq_6 _ _ _ hquote hbackslash, if_neg hcontrol, hread]

/-- A string is read back up to its closing quote. -/
theorem readString_string (whole s rest : Text) :
    readString whole (s.flatMap escapeChar ++ ↑ '"' :: rest) = .ok (s, rest) := by
  induction s with
  | nil => simp [readString]
  | cons c s ih =>
    rw [List.flatMap_cons, List.append_assoc]
    exact (escape_escapeChar c).readString ih

/-- What can follow a value in a document that is written. -/
def Ends (rest : Text) : Prop := ∀ c ∈ rest.head?, c = ',' ∨ c = ']' ∨ c = '\x7d' ∨ c = '\n'

theorem Ends.not_digit (h : Ends rest) : ∀ c ∈ rest.head?, Text.isAsciiDigit c = false := by
  intro c hc
  rcases h c hc with rfl | rfl | rfl | rfl <;> rfl

theorem Ends.readFraction (h : Ends rest) : readFraction rest = ([], rest) := by
  unfold Json.readFraction
  split
  · rcases h '.' rfl with hc | hc | hc | hc <;> cases hc
  · rfl

theorem Ends.readExponent (h : Ends rest) : readExponent rest = (none, rest) := by
  unfold Json.readExponent
  split
  · next e s =>
    have he : ¬ (e = 'e' || e = 'E') := by
      rcases h e rfl with rfl | rfl | rfl | rfl <;> decide
    rw [if_neg he]
  · rfl

theorem readWhole_ofNat (h : Ends rest) (n : Nat) :
    readWhole (Text.ofNat n ++ rest) = some (Text.ofNat n, rest) := by
  have hdigits : Text.splitWhile Text.isAsciiDigit (Text.ofNat n ++ rest) = (Text.ofNat n, rest) :=
    Text.splitWhile_append (fun c hc => Text.isAsciiDigit_of_mem_ofNat hc) h.not_digit
  unfold readWhole
  split
  · next s hzero =>
    have hhead : (Text.ofNat n).head? = some ↑ '0' := by
      cases hn : Text.ofNat n with
      | nil => exact absurd hn (Text.ofNat_ne_nil n)
      | cons c t =>
        rw [hn] at hzero
        exact congrArg some (List.cons.inj hzero).1
    obtain rfl := Text.eq_zero_of_head_ofNat hhead
    rw [(List.cons.inj hzero).2.symm]
    rfl
  · rw [hdigits]
    split
    · next heq => exact absurd (Prod.mk.inj heq).1 (Text.ofNat_ne_nil n)
    · rfl

/-- The sign of a number is read for itself. -/
theorem readNumber_of_readWhole (limit : Option Nat) {body whole : Text} (h : Ends rest)
    (negative : Bool)
    (hwhole : readWhole body = some (whole, rest)) (hbody : ∀ s, body ≠ ↑ '-' :: s) :
    readNumber limit (if negative then '-' :: body else body) =
      (readInteger limit negative whole).map fun d => (d, rest) := by
  unfold readNumber
  cases negative <;>
    simp only [if_true, if_false, Bool.false_eq_true, hwhole, h.readFraction, h.readExponent,
      List.isEmpty_nil, Option.isNone_none, Bool.and_self]

/-- An integer that has no more digits than the limit. -/
def WithinDigits (limit : Option Nat) (n : Int) : Prop :=
  ∀ most ∈ limit, (Text.ofNat n.natAbs).length ≤ most

instance (limit : Option Nat) (n : Int) : Decidable (WithinDigits limit n) :=
  inferInstanceAs (Decidable (∀ most ∈ limit, _))

theorem readInteger_ofNat (hn : WithinDigits limit n) (negative : Bool) :
    readInteger limit negative (Text.ofNat n) = .ok (.int (if negative then -n else n)) := by
  have hnone : limit.filter (· < (Text.ofNat n).length) = none := by
    rw [Option.filter_eq_none_iff]
    intro most hmost
    simpa using hn most hmost
  rw [readInteger, hnone]
  simp only [Text.natOfDigits_ofNat]

theorem readNumber_ofInt (h : Ends rest) {n : Int} (hn : WithinDigits limit n) :
    readNumber limit (Text.ofInt n ++ rest) = .ok (.int n, rest) := by
  have hbody (n : Nat) (s : Text) : Text.ofNat n ++ rest ≠ ↑ '-' :: s := by
    obtain ⟨d, ds, hdigits, hd⟩ := Text.exists_ofNat_eq n
    rw [hdigits]
    intro heq
    exact Text.ne_digit rfl hd (List.cons.inj heq).1.symm
  cases n with
  | ofNat n =>
    have hread := readNumber_of_readWhole limit h false (readWhole_ofNat h n) (hbody n)
    rw [readInteger_ofNat hn] at hread
    exact hread
  | negSucc n =>
    have hread := readNumber_of_readWhole limit h true (readWhole_ofNat h (n + 1))
      (hbody (n + 1))
    rw [readInteger_ofNat hn] at hread
    exact hread

/-- A number is no word: a word does not start with a digit, not even after a sign. -/
theorem findSome?_words_ofInt (n : Int) (rest : Text) :
    (words.findSome? fun (word, d) =>
      (afterWord? word (Text.ofInt n ++ rest)).map fun rest => (d, rest)) = none := by
  cases n with
  | ofNat n =>
    obtain ⟨d, ds, hn, hd⟩ := Text.exists_ofNat_eq n
    have hne (c : CodePoint) (hc : Text.isAsciiDigit c = false) : c ≠ d := Text.ne_digit hc hd
    simp [Text.ofInt, hn, words, afterWord?, hne 'n' rfl, hne 't' rfl, hne 'f' rfl, hne 'N' rfl,
      hne 'I' rfl, hne '-' rfl]
  | negSucc n =>
    obtain ⟨d, ds, hn, hd⟩ := Text.exists_ofNat_eq (n + 1)
    have hne : ↑ 'I' ≠ d := Text.ne_digit rfl hd
    simp [Text.ofInt, hn, words, afterWord?, hne]

theorem readScalar_ofInt (h : Ends rest) {n : Int} (hn : WithinDigits limit n) :
    readScalar limit (Text.ofInt n ++ rest) = .ok (.int n, rest) := by
  rw [readScalar, findSome?_words_ofInt]
  exact readNumber_ofInt h hn

theorem readScalar_null (limit : Option Nat) (rest : Text) :
    readScalar limit ("null" ++ rest) = .ok (.null, rest) := rfl

theorem readScalar_bool (limit : Option Nat) (b : Bool) (rest : Text) :
    readScalar limit ((if b then ("true" : Text) else "false") ++ rest) = .ok (.bool b, rest) := by
  cases b <;> rfl

end Json
end Stencil
