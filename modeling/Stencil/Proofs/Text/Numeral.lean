import Stencil.Text.Digit
/-! Whole numbers as they are written: the digits of a number, and the texts of digits that spell
it. -/
namespace Stencil.Text

variable {c : CodePoint} {n : Nat} {s : Text}

theorem natOfDigits_ofNat (n : Nat) : natOfDigits (ofNat n) = n := by
  rw [natOfDigits, ofNat, digits, List.foldl_map]
  exact Nat.ofDigitChars_ten_toDigits

theorem isAsciiDigit_of_mem_ofNat (h : c ∈ ofNat n) : isAsciiDigit c := by
  obtain ⟨d, hd, rfl⟩ := List.mem_map.1 h
  have hdigit := Nat.isDigit_of_mem_toDigits (by decide) (by decide) hd
  simpa [isAsciiDigit, CodePoint.le_iff, Char.isDigit, UInt32.le_iff_toNat_le] using hdigit

theorem ofNat_ne_nil (n : Nat) : ofNat n ≠ [] := mt List.map_eq_nil_iff.1 Nat.toDigits_ne_nil

theorem digitChar_eq_zero_iff (h : n < 10) : n.digitChar = '0' ↔ n = 0 := by
  revert n
  decide

theorem exists_ofNat_eq (n : Nat) : ∃ d ds, ofNat n = d :: ds ∧ isAsciiDigit d := by
  obtain ⟨d, ds, hn⟩ := List.exists_cons_of_ne_nil (ofNat_ne_nil n)
  exact ⟨d, ds, hn, isAsciiDigit_of_mem_ofNat (hn ▸ List.mem_cons_self)⟩

theorem ne_digit {d : CodePoint} (hc : isAsciiDigit c = false) (hd : isAsciiDigit d) : c ≠ d := by
  rintro rfl
  exact Bool.false_ne_true (hc.symm.trans hd)

/-- Only the number zero is written with a zero in front. -/
theorem eq_zero_of_head_ofNat (h : (ofNat n).head? = some ↑ '0') : n = 0 := by
  have hhead : (Nat.toDigits 10 n).head? = some '0' := by
    rw [ofNat, digits, List.head?_map] at h
    obtain ⟨d, hd, hzero⟩ := Option.map_eq_some_iff.1 h
    rw [hd, CodePoint.scalar.inj hzero]
  clear h
  induction n using Nat.strongRecOn with
  | ind n ih =>
    rw [Nat.toDigits_eq_if (by decide)] at hhead
    split at hhead
    · next hn => exact (digitChar_eq_zero_iff hn).1 (Option.some.inj hhead)
    · next hn =>
      rw [List.head?_append, Option.or_of_isSome (List.isSome_head?.2 Nat.toDigits_ne_nil)] at hhead
      have := ih (n / 10) (by omega) hhead
      omega

/-- A text that is a number in decimal digits, possibly with zeros in front. -/
def Numeral (s : Text) (n : Nat) : Prop := ∃ count, s = zeros count ++ ofNat n

/-- An ASCII digit is how a number below ten is written. -/
theorem digit_of_isAsciiDigit (h : isAsciiDigit c) :
    c.toNat - '0'.toNat < 10 ∧ ofNat (c.toNat - '0'.toNat) = [c] := by
  have hrange : 48 ≤ c.toNat ∧ c.toNat ≤ 57 := by
    simpa [isAsciiDigit, CodePoint.le_iff] using h
  have hlt : c.toNat - 48 < 10 := by omega
  have hchar : ↑(c.toNat - 48).digitChar = c := by
    apply CodePoint.toNat_injective
    rw [CodePoint.toNat_scalar, Nat.toNat_digitChar_of_lt_ten hlt]
    omega
  refine ⟨hlt, ?_⟩
  show (Nat.toDigits 10 (c.toNat - 48)).map CodePoint.scalar = [c]
  rw [Nat.toDigits_of_lt_base hlt, List.map_singleton, hchar]

/-- The number that digits behind another number go on with. -/
def goOn (n : Nat) (s : Text) : Nat := s.foldl (fun n c => 10 * n + (c.toNat - '0'.toNat)) n

theorem goOn_zeros (count : Nat) : goOn 0 (zeros count) = 0 := by
  induction count with
  | zero => rfl
  | succ count ih => exact ih

/-- Digits behind a number other than zero go on with it. -/
theorem ofNat_append (hn : 0 < n) (hs : ∀ c ∈ s, isAsciiDigit c) :
    ofNat n ++ s = ofNat (goOn n s) := by
  induction s generalizing n with
  | nil => exact List.append_nil _
  | cons c s ih =>
    obtain ⟨hc, hrest⟩ := List.forall_mem_cons.1 hs
    obtain ⟨hlt, hdigit⟩ := digit_of_isAsciiDigit hc
    have hnext : ofNat n ++ [c] = ofNat (10 * n + (c.toNat - '0'.toNat)) := by
      rw [← hdigit]
      simp only [ofNat, digits, ← List.map_append, Nat.toDigits_append_toDigits (by decide) hn hlt]
    calc
      ofNat n ++ c :: s = ofNat n ++ [c] ++ s := by simp
      _ = ofNat (goOn (10 * n + (c.toNat - '0'.toNat)) s) := by rw [hnext, ih (by omega) hrest]

theorem numeral_of_isAsciiDigit (hne : s ≠ []) (hs : ∀ c ∈ s, isAsciiDigit c) :
    s.Numeral (natOfDigits s) := by
  induction s with
  | nil => exact absurd rfl hne
  | cons c s ih =>
    obtain ⟨hc, hrest⟩ := List.forall_mem_cons.1 hs
    obtain ⟨-, hdigit⟩ := digit_of_isAsciiDigit hc
    have hvalue : natOfDigits (c :: s) = goOn (c.toNat - '0'.toNat) s := by
      simp [natOfDigits, goOn]
    by_cases hzero : c.toNat - '0'.toNat = 0
    · rw [hzero] at hdigit
      obtain rfl : ↑ '0' = c := (List.cons.inj hdigit).1
      cases s with
      | nil => exact ⟨0, rfl⟩
      | cons d s =>
        obtain ⟨count, hs⟩ := ih (List.cons_ne_nil d s) hrest
        exact ⟨count + 1, congrArg (List.cons ↑ '0') hs⟩
    · refine ⟨0, ?_⟩
      rw [hvalue, ← ofNat_append (Nat.pos_of_ne_zero hzero) hrest, hdigit]
      rfl

/-- The numbers are the texts of ASCII digits, and each is the number that its digits spell. -/
theorem numeral_iff :
    s.Numeral n ↔ s ≠ [] ∧ (∀ c ∈ s, isAsciiDigit c) ∧ natOfDigits s = n := by
  constructor
  · rintro ⟨count, rfl⟩
    refine ⟨List.append_ne_nil_of_right_ne_nil _ (ofNat_ne_nil n), ?_, ?_⟩
    · intro c hc
      rcases List.mem_append.1 hc with hzero | hdigit
      · obtain rfl := List.eq_of_mem_replicate hzero
        rfl
      · exact isAsciiDigit_of_mem_ofNat hdigit
    · calc
        natOfDigits (zeros count ++ ofNat n) =
            goOn (goOn 0 (zeros count)) (ofNat n) := List.foldl_append
        _ = n := by rw [goOn_zeros]; exact natOfDigits_ofNat n
  · rintro ⟨hne, hdigits, rfl⟩
    exact numeral_of_isAsciiDigit hne hdigits

end Stencil.Text
