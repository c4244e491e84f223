import RuleFlow.Json.Decoder
import RuleFlow.Proofs.Json.Quoted

/-!
# Whole numbers that are read as they were written

A whole number is written with its decimal digits and, if it is negative, a minus sign. As long as it fits
into 64 bits no digit is dropped when it is read, and it comes back as a whole number
(`readNumber_digits_of_delimited`). What follows must not be taken for a part of the number: inside an array
or an object it is a comma or a closing bracket (`Delimited`).
-/

namespace RuleFlow.Json

/-- What may follow a value inside an array or an object. -/
def Delimited (text : List UInt8) : Prop :=
  ∃ b rest, text = b :: rest ∧ (b = 0x2C ∨ b = 0x5D ∨ b = 0x7D)

/-- The digits of a number. -/
def digitsOf (n : Nat) : List UInt8 := encodeChars (Nat.toDigits 10 n)

theorem bytesOf_toString (n : Nat) : bytesOf (toString n) = digitsOf n := by
  rw [Nat.toString_eq_ofList_toDigits, bytesOf_ofList, digitsOf]

section

variable {c : Char}

theorem toNat_of_isDigit (h : c.isDigit = true) : 48 ≤ c.toNat ∧ c.toNat ≤ 57 := by
  simpa [Char.isDigit, UInt32.le_iff_toNat_le] using h

theorem utf8EncodeChar_of_isDigit (h : c.isDigit = true) :
    String.utf8EncodeChar c = [UInt8.ofNat c.toNat] :=
  utf8EncodeChar_of_lt (Nat.lt_of_le_of_lt (toNat_of_isDigit h).2 (by decide))

theorem toNat_byte_of_isDigit (h : c.isDigit = true) : (UInt8.ofNat c.toNat).toNat = c.toNat := by
  rw [UInt8.toNat_ofNat', Nat.mod_eq_of_lt (Nat.lt_of_le_of_lt (toNat_of_isDigit h).2 (by decide))]

theorem isDigitByte_of_isDigit (h : c.isDigit = true) : isDigitByte (UInt8.ofNat c.toNat) = true := by
  simpa [isDigitByte, UInt8.le_iff_toNat_le, toNat_byte_of_isDigit h] using toNat_of_isDigit h

/-- The byte of a digit is read with the value of the digit. -/
theorem digitValue_of_isDigit (h : c.isDigit = true) :
    digitValue (UInt8.ofNat c.toNat) = c.toNat - '0'.toNat := by
  rw [digitValue, toNat_byte_of_isDigit h]
  rfl

end

theorem le_ofDigitChars (cs : List Char) (n : Nat) : n ≤ Nat.ofDigitChars 10 cs n := by
  rw [Nat.ofDigitChars_eq_ofDigitChars_zero]
  exact Nat.le_add_right_of_le (Nat.le_mul_of_pos_left n (Nat.pos_of_ne_zero (by simp)))

/-- All digits are taken if their value fits. -/
theorem takeDigits_encodeChars {cs : List Char} (hcs : ∀ c ∈ cs, c.isDigit = true) {rest : List UInt8}
    (hrest : startsWithDigit rest = false) (significand taken : Nat)
    (hfits : Nat.ofDigitChars 10 cs significand ≤ maxWord) :
    takeDigits significand taken (encodeChars cs ++ rest) =
      (Nat.ofDigitChars 10 cs significand, taken + cs.length, rest) := by
  induction cs generalizing significand taken with
  | nil =>
    cases rest with
    | nil => rfl
    | cons b rest =>
      have hb : isDigitByte b = false := hrest
      simp [takeDigits, hb]
  | cons c cs ih =>
    obtain ⟨hc, hcs⟩ := List.forall_mem_cons.1 hcs
    rw [Nat.ofDigitChars_cons, Nat.mul_comm 10] at hfits ⊢
    rw [encodeChars_cons, utf8EncodeChar_of_isDigit hc, List.append_assoc, List.singleton_append,
      takeDigits, digitValue_of_isDigit hc,
      if_pos ⟨isDigitByte_of_isDigit hc, Nat.le_trans (le_ofDigitChars cs _) hfits⟩, ih hcs _ _ hfits,
      List.length_cons, Nat.add_right_comm, Nat.add_assoc]

/-- The first digit of a positive number is not zero. -/
theorem exists_toDigits_eq (n : Nat) (hn : 0 < n) :
    ∃ c cs, Nat.toDigits 10 n = c :: cs ∧ c ≠ '0' := by
  induction n using Nat.strongRecOn with
  | ind n ih =>
    rcases Nat.lt_or_ge n 10 with hlt | hge
    · refine ⟨n.digitChar, [], Nat.toDigits_of_lt_base hlt, ?_⟩
      rw [Ne, Nat.digitChar_eq_zero]
      omega
    · obtain ⟨c, cs, hdigits, hc⟩ := ih (n / 10) (by omega) (by omega)
      refine ⟨c, cs ++ [(n % 10).digitChar], ?_, hc⟩
      rw [Nat.toDigits_of_base_le (by omega) hge, hdigits, List.cons_append]

/-- The digits of a number are read up to where they end. -/
theorem readNumber_digits {n : Nat} (hn : n ≤ maxWord) {rest : List UInt8}
    (hrest : startsWithDigit rest = false) (negative : Bool) :
    readNumber negative (digitsOf n ++ rest) = readTail negative n rest := by
  have hdigit : ∀ c ∈ Nat.toDigits 10 n, c.isDigit = true :=
    fun c hc => Nat.isDigit_of_mem_toDigits (by decide) (by decide) hc
  have hvalue : Nat.ofDigitChars 10 (Nat.toDigits 10 n) 0 = n := Nat.ofDigitChars_ten_toDigits
  rcases Nat.eq_zero_or_pos n with rfl | hpos
  · have hzero : digitsOf 0 = [0x30] := by decide
    rw [hzero, List.singleton_append, readNumber, if_pos rfl, hrest]
    rfl
  · obtain ⟨c, cs, hdigits, hc⟩ := exists_toDigits_eq n hpos
    rw [hdigits] at hdigit hvalue
    obtain ⟨hdigit, hdigits'⟩ := List.forall_mem_cons.1 hdigit
    rw [Nat.ofDigitChars_cons, Nat.mul_zero, Nat.zero_add] at hvalue
    have hzero : UInt8.ofNat c.toNat ≠ 0x30 := by
      intro h
      have hnat := congrArg UInt8.toNat h
      rw [toNat_byte_of_isDigit hdigit] at hnat
      exact hc (Char.toNat_inj.1 hnat)
    rw [digitsOf, hdigits, encodeChars_cons, utf8EncodeChar_of_isDigit hdigit, List.singleton_append,
      List.cons_append, readNumber, if_neg hzero, if_pos (isDigitByte_of_isDigit hdigit),
      digitValue_of_isDigit hdigit, takeDigits_encodeChars hdigits' hrest _ _ (hvalue ▸ hn)]
    simp only [hvalue, hrest]
    rfl

section

variable {rest : List UInt8} (h : Delimited rest)
include h

theorem startsWithDigit_of_delimited : startsWithDigit rest = false := by
  obtain ⟨b, rest, rfl, rfl | rfl | rfl⟩ := h <;> rfl

theorem readTail_of_delimited (n : Nat) : readTail false n rest = .ok (.int n, rest) := by
  obtain ⟨b, rest, rfl, rfl | rfl | rfl⟩ := h <;> rfl

theorem readTail_negative_of_delimited {n : Nat} (hpos : 0 < n) (hn : n ≤ Nat.pow 2 63) :
    readTail true n rest = .ok (.int (-n), rest) := by
  obtain ⟨b, rest, rfl, rfl | rfl | rfl⟩ := h <;>
    simp [readTail, startsWithExponent, hpos, hn]

/-- The digits of a number before a delimiter are read as the number. -/
theorem readNumber_digits_of_delimited {n : Nat} (hn : n ≤ maxWord) :
    readNumber false (digitsOf n ++ rest) = .ok (.int n, rest) := by
  rw [readNumber_digits hn (startsWithDigit_of_delimited h), readTail_of_delimited h]

end

theorem exists_digitsOf_eq (n : Nat) : ∃ b bs, digitsOf n = b :: bs ∧ isDigitByte b = true := by
  match hdigits : Nat.toDigits 10 n with
  | [] => exact absurd hdigits Nat.toDigits_ne_nil
  | c :: cs =>
    have hc : c.isDigit = true :=
      Nat.isDigit_of_mem_toDigits (by decide) (by decide) (hdigits ▸ List.mem_cons_self)
    refine ⟨_, encodeChars cs, ?_, isDigitByte_of_isDigit hc⟩
    rw [digitsOf, hdigits, encodeChars_cons, utf8EncodeChar_of_isDigit hc, List.singleton_append]

end RuleFlow.Json
