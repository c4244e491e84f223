import RuleFlow.Json.Reader
import RuleFlow.Json.Render
import RuleFlow.Proofs.Outcome

/-!
# Strings that are read as they were written

`quote` escapes what may not stand between quotes, and `readString` undoes it: every text comes back,
whatever characters it has, and reading stops right after the closing quote (`readString_quoted`). Character by
character, the scan takes from an escape the bytes of the character that was escaped (`scanString_escapeChar`).
-/

namespace RuleFlow.Json

/-- The bytes of some characters. -/
def encodeChars (cs : List Char) : List UInt8 := cs.flatMap String.utf8EncodeChar

@[simp] theorem encodeChars_nil : encodeChars [] = [] := rfl

@[simp] theorem encodeChars_cons (c : Char) (cs : List Char) :
    encodeChars (c :: cs) = String.utf8EncodeChar c ++ encodeChars cs := rfl

@[simp] theorem encodeChars_append (cs ds : List Char) :
    encodeChars (cs ++ ds) = encodeChars cs ++ encodeChars ds := List.flatMap_append

theorem bytesOf_append (s t : String) : bytesOf (s ++ t) = bytesOf s ++ bytesOf t := by
  simp [bytesOf, String.toUTF8, String.toByteArray_append]

theorem bytesOf_ofList (cs : List Char) : bytesOf (String.ofList cs) = encodeChars cs := by
  simp [bytesOf, String.toUTF8, String.toByteArray_ofList, List.utf8Encode, encodeChars]

theorem bytesOf_eq (s : String) : bytesOf s = encodeChars s.toList := by
  rw [← bytesOf_ofList, String.ofList_toList]

/-- The bytes of a text are the bytes of a text, and of no other. -/
theorem stringOf?_bytesOf (s : String) : stringOf? (bytesOf s) = some s := by
  have hbytes : (⟨(bytesOf s).toArray⟩ : ByteArray) = s.toByteArray := rfl
  rw [stringOf?, hbytes, String.fromUTF8?, dif_pos s.isValidUTF8]
  rfl

theorem utf8EncodeChar_of_lt {c : Char} (h : c.toNat < 0x80) :
    String.utf8EncodeChar c = [UInt8.ofNat c.toNat] :=
  if_pos (Nat.le_of_lt_succ h)

/-- A character beyond the first 128 has no byte below them. -/
theorem le_of_mem_utf8EncodeChar {c : Char} (h : 0x80 ≤ c.toNat) {b : UInt8}
    (hb : b ∈ String.utf8EncodeChar c) : 0x80 ≤ b := by
  have hle : ∀ n : Nat, 128 ≤ n → n < 256 → 0x80 ≤ UInt8.ofNat n := by
    intro n hlow hhigh
    rw [UInt8.le_iff_toNat_le, UInt8.toNat_ofNat', Nat.mod_eq_of_lt hhigh]
    exact hlow
  have hc : ¬c.val.toNat ≤ 127 := Nat.not_le.2 h
  rw [String.utf8EncodeChar, if_neg hc] at hb
  split at hb
  · simp only [List.mem_cons, List.not_mem_nil, or_false] at hb
    rcases hb with rfl | rfl <;> exact hle _ (by omega) (by omega)
  split at hb
  · simp only [List.mem_cons, List.not_mem_nil, or_false] at hb
    rcases hb with rfl | rfl | rfl <;> exact hle _ (by omega) (by omega)
  · simp only [List.mem_cons, List.not_mem_nil, or_false] at hb
    rcases hb with rfl | rfl | rfl | rfl <;> exact hle _ (by omega) (by omega)

/-- A byte that stands for itself between quotes. -/
def IsPlain (b : UInt8) : Prop := b ≠ 0x22 ∧ b ≠ 0x5C ∧ 0x20 ≤ b

theorem isPlain_of_le {b : UInt8} (h : 0x80 ≤ b) : IsPlain b := by
  refine ⟨?_, ?_, UInt8.le_trans (by decide) h⟩ <;> (rintro rfl; exact absurd h (by decide))

/-- A printable ASCII character that is neither a quote nor a backslash is read as it is. -/
theorem isPlain_ofNat {c : Char} (hquote : c ≠ '"') (hslash : c ≠ '\\') (hcontrol : ¬c.toNat < 0x20)
    (hascii : c.toNat < 0x80) : IsPlain (UInt8.ofNat c.toNat) := by
  have hnat : (UInt8.ofNat c.toNat).toNat = c.toNat := by
    rw [UInt8.toNat_ofNat', Nat.mod_eq_of_lt (Nat.lt_trans hascii (by decide))]
  refine ⟨fun h => hquote ?_, fun h => hslash ?_, ?_⟩
  · exact Char.toNat_inj.1 (hnat.symm.trans (congrArg UInt8.toNat h))
  · exact Char.toNat_inj.1 (hnat.symm.trans (congrArg UInt8.toNat h))
  · rw [UInt8.le_iff_toNat_le, hnat]
    exact Nat.not_lt.1 hcontrol

theorem scanString_plain {bytes : List UInt8} (h : ∀ b ∈ bytes, IsPlain b) (taken rest : List UInt8) :
    scanString .plain taken (bytes ++ rest) = scanString .plain (bytes.reverse ++ taken) rest := by
  induction bytes generalizing taken with
  | nil => rfl
  | cons b bytes ih =>
    obtain ⟨hquote, hslash, hcontrol⟩ := h b List.mem_cons_self
    rw [List.cons_append, scanString, if_neg hquote, if_neg hslash,
      if_neg (UInt8.not_lt.2 hcontrol), ih fun b hb => h b (List.mem_cons_of_mem _ hb)]
    simp

/-- A one-letter escape gives the byte it stands for. -/
theorem scanString_escape {b c : UInt8} (hb : b ≠ 0x75) (h : escapeByte? b = some c)
    (taken rest : List UInt8) :
    scanString .plain taken (0x5C :: b :: rest) = scanString .plain (c :: taken) rest := by
  simp [scanString, hb, h]

/-- An escape by number gives the bytes of the character with that number. -/
theorem scanString_hex {a b c d : UInt8} {n : Nat} (h : hexUnit? [a, b, c, d] = some n)
    (hn : n < 0xD800) (taken rest : List UInt8) :
    scanString .plain taken (0x5C :: 0x75 :: a :: b :: c :: d :: rest) =
      scanString .plain (pushCodePoint n taken) rest := by
  have hlow : ¬(0xDC00 ≤ n ∧ n < 0xE000) := by omega
  have hhigh : ¬(0xD800 ≤ n ∧ n < 0xDC00) := by omega
  simp [scanString, h, hlow, hhigh]

/-- The four digits of the escape of a control character. -/
theorem hexUnit?_digits : ∀ n : Fin 0x20, (encodeChars (Text.Hex.digits 4 n)).length = 4 ∧
    hexUnit? (encodeChars (Text.Hex.digits 4 n)) = some n := by
  decide

/-- What is taken from the escape of a character are the bytes of the character. -/
theorem scanString_escapeChar (c : Char) (taken rest : List UInt8) :
    scanString .plain taken (encodeChars (escapeChar c) ++ rest) =
      scanString .plain ((String.utf8EncodeChar c).reverse ++ taken) rest := by
  unfold escapeChar
  -- The seven characters that have a letter.
  iterate 7
    split
    · subst_vars
      exact scanString_escape (by decide) rfl ..
  rename_i hquote hslash _ _ _ _ _
  split
  case isTrue hcontrol =>
    obtain ⟨hlength, hhex⟩ := hexUnit?_digits ⟨c.toNat, hcontrol⟩
    match hdigits : encodeChars (Text.Hex.digits 4 c.toNat), hlength, hhex with
    | [x, y, z, w], _, hhex =>
      have hnumber := scanString_hex hhex (Nat.lt_trans hcontrol (by decide)) taken rest
      rw [pushCodePoint, Char.ofNat_toNat] at hnumber
      rw [encodeChars_cons, encodeChars_cons, hdigits]
      exact hnumber
  case isFalse hcontrol =>
    rw [encodeChars_cons, encodeChars_nil, List.append_nil]
    refine scanString_plain (fun b hb => ?_) taken rest
    by_cases hascii : c.toNat < 0x80
    · rw [utf8EncodeChar_of_lt hascii, List.mem_singleton] at hb
      exact hb ▸ isPlain_ofNat hquote hslash hcontrol hascii
    · exact isPlain_of_le (le_of_mem_utf8EncodeChar (Nat.not_lt.1 hascii) hb)

theorem scanString_flatMap_escapeChar (cs : List Char) (taken rest : List UInt8) :
    scanString .plain taken (encodeChars (cs.flatMap escapeChar) ++ rest) =
      scanString .plain ((encodeChars cs).reverse ++ taken) rest := by
  induction cs generalizing taken with
  | nil => rfl
  | cons c cs ih =>
    rw [List.flatMap_cons, encodeChars_append, List.append_assoc, scanString_escapeChar, ih]
    simp

/-- What stands after the opening quote of a text. -/
def quoted (s : String) : List UInt8 := encodeChars (s.toList.flatMap escapeChar) ++ [0x22]

/-- A quoted text is a quote, the escaped characters and a quote. -/
theorem bytesOf_quote (s : String) : bytesOf (quote s) = 0x22 :: quoted s := by
  have hmark : encodeChars ['"'] = [0x22] := by decide
  rw [quote, bytesOf_append, bytesOf_append, bytesOf_ofList, bytesOf_ofList, hmark]
  rfl

/-- A text is read as it was written, up to its closing quote. -/
theorem readString_quoted (s : String) (rest : List UInt8) :
    readString (quoted s ++ rest) = .ok (s, rest) := by
  have hscan : scanString .plain [] (quoted s ++ rest) = .ok (bytesOf s, rest) := by
    rw [quoted, List.append_assoc, scanString_flatMap_escapeChar]
    simp [scanString, bytesOf_eq]
  refine bind_eq_ok_iff.2 ⟨_, hscan, ?_⟩
  simp only [stringOf?_bytesOf]

end RuleFlow.Json
