import RuleFlow.Script.Object

/-!
# Texts as units and back

A text of a script is a list of 16-bit units. The units of a string decode to its characters, of which none is a
surrogate without a partner (`Text.Units.decode_encode`), so a string that went through a script is quoted as JSON
quotes it (`Script.quoteUnits_units`), and different strings have different units.
-/

namespace RuleFlow

namespace Text.Units

theorem toNat_ofNat_of_lt {n : Nat} (h : n < 0x10000) : (UInt16.ofNat n).toNat = n := by
  rw [UInt16.toNat_ofNat', Nat.mod_eq_of_lt h]

/-- A character is no surrogate. -/
theorem toNat_valid (c : Char) : c.toNat < 0xD800 ∨ 0xDFFF < c.toNat ∧ c.toNat < 0x110000 := c.valid

/-- The units of a character are decoded to it, whatever follows. -/
theorem decode_ofChar_append (c : Char) (us : List UInt16) : decode (ofChar c ++ us) = .inl c :: decode us := by
  have hvalid := toNat_valid c
  by_cases hc : c.toNat < 0x10000
  · have hunit := toNat_ofNat_of_lt hc
    have hlead : isLead (UInt16.ofNat c.toNat) = false := by
      simp only [isLead, hunit, Bool.and_eq_false_iff, decide_eq_false_iff_not]
      omega
    have htrail : isTrail (UInt16.ofNat c.toNat) = false := by
      simp only [isTrail, hunit, Bool.and_eq_false_iff, decide_eq_false_iff_not]
      omega
    rw [ofChar, if_pos hc, List.singleton_append]
    cases us with
    | nil => simp [decode, hlead, htrail, hunit]
    | cons v us => simp [decode, hlead, htrail, hunit]
  · have hlead : (UInt16.ofNat (0xD800 + (c.toNat - 0x10000) / 0x400)).toNat =
        0xD800 + (c.toNat - 0x10000) / 0x400 := toNat_ofNat_of_lt (by omega)
    have htrail : (UInt16.ofNat (0xDC00 + (c.toNat - 0x10000) % 0x400)).toNat =
        0xDC00 + (c.toNat - 0x10000) % 0x400 := toNat_ofNat_of_lt (by omega)
    have hpair : pair (UInt16.ofNat (0xD800 + (c.toNat - 0x10000) / 0x400))
        (UInt16.ofNat (0xDC00 + (c.toNat - 0x10000) % 0x400)) = c := by
      have hsum : 0x10000 + (0xD800 + (c.toNat - 0x10000) / 0x400 - 0xD800) * 0x400 +
          (0xDC00 + (c.toNat - 0x10000) % 0x400 - 0xDC00) = c.toNat := by omega
      rw [pair, hlead, htrail, hsum, Char.ofNat_toNat]
    have hfirst : isLead (UInt16.ofNat (0xD800 + (c.toNat - 0x10000) / 0x400)) = true := by
      simp only [isLead, hlead, Bool.and_eq_true, decide_eq_true_eq]
      omega
    have hsecond : isTrail (UInt16.ofNat (0xDC00 + (c.toNat - 0x10000) % 0x400)) = true := by
      simp only [isTrail, htrail, Bool.and_eq_true, decide_eq_true_eq]
      omega
    rw [ofChar, if_neg hc]
    simp only [List.cons_append, List.nil_append, decode, hfirst, hsecond, Bool.and_self, if_true, hpair]

/-- The units of a text decode to its characters. -/
theorem decode_encode (cs : List Char) : decode (encode cs) = cs.map .inl := by
  induction cs with
  | nil => rfl
  | cons c cs ih => rw [encode, List.flatMap_cons, ← encode, decode_ofChar_append, ih, List.map_cons]

/-- Different texts have different units. -/
theorem ofString_injective {s t : String} (h : ofString s = ofString t) : s = t := by
  have hdecode := congrArg decode h
  rw [ofString, ofString, decode_encode, decode_encode] at hdecode
  exact String.toList_inj.1 ((List.map_inj_right fun _ _ => Sum.inl.inj).1 hdecode)

end Text.Units

namespace Script

theorem units_inj {s t : String} : units s = units t ↔ s = t :=
  ⟨Text.Units.ofString_injective, congrArg units⟩

/-- A string that became a text of a script is quoted as it is in JSON. -/
theorem quoteUnits_units (s : String) : quoteUnits (units s) = Json.quote s := by
  rw [quoteUnits, units, Text.Units.ofString, Text.Units.decode_encode, List.flatMap_map, Json.quote]

end Script

end RuleFlow
