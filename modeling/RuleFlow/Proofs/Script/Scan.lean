import RuleFlow.Proofs.Script.Literal
import RuleFlow.Proofs.Script.Units

/-!
# The tokens of a JSON text

A JSON text is cut into the tokens of its literal (`Literal.scans`). A quoted text is one token that has the units
of the string, whatever the JSON text escapes (`quotedOf?_escapeChar`); a word ends where a mark follows
(`Breaks`), and a mark stands for itself.
-/

namespace RuleFlow.Script

open Json (Members)

namespace Token

/-- A short escape in a quoted text is taken for its character. -/
theorem quotedOf?_escape {c : Char} {rest : List Char} {us taken : List UInt16}
    (h : escapeOf? (c :: rest) = some (us, 1)) :
    quotedOf? '"' 0 taken ('\\' :: c :: rest) = quotedOf? '"' 0 (taken ++ us) rest := by
  simp [quotedOf?, h]

/-- The four digits of the escape of a control character. -/
theorem number?_digits : ∀ n : Fin 0x20, (Text.Hex.digits 4 n).length = 4 ∧
    (Text.Hex.digits 4 n).head? = some '0' ∧ Text.Hex.number? (Text.Hex.digits 4 n) = some n.val := by
  decide

/-- A long escape in a quoted text is taken for its unit. -/
theorem quotedOf?_hex {a b c d : Char} {n : Nat} (ha : a = '0') (h : Text.Hex.number? [a, b, c, d] = some n)
    (taken : List UInt16) (rest : List Char) :
    quotedOf? '"' 0 taken ('\\' :: 'u' :: a :: b :: c :: d :: rest) =
      quotedOf? '"' 0 (taken ++ [UInt16.ofNat n]) rest := by
  subst ha
  have hescape : escapeOf? ('u' :: '0' :: b :: c :: d :: rest) = some ([UInt16.ofNat n], 5) := by
    simp [escapeOf?, h]
  simp [quotedOf?, hescape]

/-- From the escape of a character the units of the character are taken. -/
theorem quotedOf?_escapeChar (c : Char) (taken : List UInt16) (rest : List Char) :
    quotedOf? '"' 0 taken (Json.escapeChar c ++ rest) = quotedOf? '"' 0 (taken ++ Text.Units.ofChar c) rest := by
  unfold Json.escapeChar
  -- The seven characters that have a letter.
  iterate 7
    split
    · subst_vars
      exact quotedOf?_escape rfl
  rename_i hquote hslash hline hreturn _ _ _
  split
  case isTrue hcontrol =>
    obtain ⟨hlength, hhead, hnumber⟩ := number?_digits ⟨c.toNat, hcontrol⟩
    have hunits : Text.Units.ofChar c = [UInt16.ofNat c.toNat] := if_pos (by omega)
    match hdigits : Text.Hex.digits 4 c.toNat, hlength, hhead, hnumber with
    | [x, y, z, w], _, hhead, hnumber =>
      rw [hunits]
      exact quotedOf?_hex (Option.some.inj hhead) hnumber taken rest
  case isFalse hcontrol =>
    simp [quotedOf?, hquote, hslash, hline, hreturn]

/-- Characters that were escaped are taken for themselves. -/
theorem quotedOf?_flatMap_escapeChar (cs : List Char) (taken : List UInt16) (rest : List Char) :
    quotedOf? '"' 0 taken (cs.flatMap Json.escapeChar ++ rest) =
      quotedOf? '"' 0 (taken ++ Text.Units.encode cs) rest := by
  induction cs generalizing taken with
  | nil => simp [Text.Units.encode]
  | cons c cs ih =>
    rw [List.flatMap_cons, List.append_assoc, quotedOf?_escapeChar, ih, List.append_assoc]
    rfl

theorem toList_quote (s : String) : (Json.quote s).toList = '"' :: (s.toList.flatMap Json.escapeChar ++ ['"']) := by
  simp [Json.quote]

theorem next_quote (s : String) (rest : List Char) :
    next false ((Json.quote s).toList ++ rest) = .ok (.quoted s, rest) := by
  have hquoted : quotedOf? '"' 0 [] (s.toList.flatMap Json.escapeChar ++ '"' :: rest) = some (units s, rest) := by
    rw [quotedOf?_flatMap_escapeChar]
    simp [quotedOf?, units, Text.Units.ofString]
  have htext : String.ofList (((Json.quote s).toList ++ rest).take
      (((Json.quote s).toList ++ rest).length - rest.length)) = Json.quote s := by
    rw [List.length_append, Nat.add_sub_cancel, List.take_left, String.ofList_toList]
  rw [toList_quote, List.cons_append, List.append_assoc, List.singleton_append] at htext ⊢
  have hname : startsName '"' = false := by decide
  have hdigit : Char.isDigit '"' = false := by decide
  simpa [next, hname, hdigit, hquoted, quoted] using htext

/-! ## Steps of a scan -/

/-- Marks that are never part of a longer one. -/
def signs : List (Char × String) :=
  [('[', "["), (']', "]"), ('\x7b', "\x7b"), ('\x7d', "\x7d"), (',', ","), (':', ":"), (')', ")")]

/-- What may follow a word. -/
def Breaks (rest : List Char) : Prop := ∃ c ∈ [',', ']', '\x7d', ')'], ∃ more, rest = c :: more

/-- Characters that are cut into tokens if a mark follows, with fuel for each of the tokens. -/
structure Scans (cs : List Char) (ts : List Token) : Prop where
  length_le : ts.length ≤ cs.length
  scanAll : ∀ fuel rest, Breaks rest →
    scanAll (fuel + ts.length) (cs ++ rest) = (scanAll fuel rest).map (ts ++ ·)

theorem scanAll_next {cs rest : List Char} {t : Token} (hblank : skipBlanks .blank false cs = (false, cs))
    (hnext : next false cs = .ok (t, rest)) (ht : t.kind ≠ .finish) (fuel : Nat) :
    scanAll (fuel + 1) cs = (scanAll fuel rest).map (t :: ·) := by
  simp only [scanAll, hblank, hnext, if_neg ht]

theorem scanAll_sign {c : Char} {s : String} (h : (c, s) ∈ signs) (fuel : Nat) (rest : List Char) :
    scanAll (fuel + 1) (c :: rest) = (scanAll fuel rest).map (.sign s :: ·) := by
  simp only [signs, List.mem_cons, Prod.mk.injEq, List.not_mem_nil, or_false] at h
  rcases h with ⟨rfl, rfl⟩ | ⟨rfl, rfl⟩ | ⟨rfl, rfl⟩ | ⟨rfl, rfl⟩ | ⟨rfl, rfl⟩ | ⟨rfl, rfl⟩ | ⟨rfl, rfl⟩ <;>
    exact scanAll_next rfl rfl (by decide) fuel

theorem scanAll_quote (s : String) (fuel : Nat) (rest : List Char) :
    scanAll (fuel + 1) ((Json.quote s).toList ++ rest) = (scanAll fuel rest).map (.quoted s :: ·) := by
  refine scanAll_next ?_ (next_quote s rest) nofun fuel
  rw [toList_quote]
  rfl

theorem scans_word {s : String} (h : s ∈ ["null", "true", "false"]) : Scans s.toList [.word s] where
  length_le := by
    simp only [List.mem_cons, List.not_mem_nil, or_false] at h
    rcases h with rfl | rfl | rfl <;> decide
  scanAll := by
    rintro fuel rest ⟨c, hc, more, rfl⟩
    simp only [List.mem_cons, List.not_mem_nil, or_false] at h hc
    rcases h with rfl | rfl | rfl <;> rcases hc with rfl | rfl | rfl | rfl <;>
      exact scanAll_next rfl rfl (by decide) fuel

theorem scans_quote (s : String) : Scans (Json.quote s).toList [.quoted s] where
  length_le := by simp [toList_quote]
  scanAll fuel rest _ := scanAll_quote s fuel rest

theorem map_map (x : Except String (List Token)) (f g : List Token → List Token) :
    (x.map f).map g = x.map fun ts => g (f ts) := by
  cases x <;> rfl

theorem scans_nil : Scans [] [] where
  length_le := Nat.le_refl 0
  scanAll fuel rest _ := by
    rw [List.length_nil, Nat.add_zero, List.nil_append]
    cases Token.scanAll fuel rest <;> rfl

/-- A quoted text, a colon and what follows. -/
theorem Scans.member {cs : List Char} {ts : List Token} (h : Scans cs ts) (key : String) :
    Scans ((Json.quote key).toList ++ ':' :: cs) (.quoted key :: .sign ":" :: ts) where
  length_le := by
    have hlength := h.length_le
    simp only [toList_quote, List.length_append, List.length_cons]
    omega
  scanAll fuel rest hrest := by
    rw [List.append_assoc, List.cons_append, List.length_cons, List.length_cons, ← Nat.add_assoc,
      ← Nat.add_assoc, scanAll_quote, scanAll_sign (s := ":") (by simp [signs]), h.scanAll fuel rest hrest, map_map,
      map_map]
    rfl

/-- What follows a comma. -/
theorem Scans.comma {cs ds : List Char} {ts us : List Token} (h : Scans cs ts) (h' : Scans ds us) :
    Scans (cs ++ ',' :: ds) (ts ++ .sign "," :: us) where
  length_le := by
    have hlength := h.length_le
    have hlength' := h'.length_le
    simp only [List.length_append, List.length_cons]
    omega
  scanAll fuel rest hrest := by
    have hbreaks : Breaks (',' :: (ds ++ rest)) := ⟨',', by simp, _, rfl⟩
    have hlength : fuel + (ts ++ sign "," :: us).length = fuel + us.length + 1 + ts.length := by
      simp only [List.length_append, List.length_cons]
      omega
    rw [hlength, List.append_assoc, List.cons_append, h.scanAll _ _ hbreaks,
      scanAll_sign (s := ",") (by simp [signs]), h'.scanAll fuel rest hrest, map_map, map_map]
    simp only [List.append_assoc, List.cons_append]

/-- A blank in front. -/
theorem Scans.blank {cs : List Char} {ts : List Token} (h : Scans cs ts) : Scans (' ' :: cs) ts where
  length_le := Nat.le_succ_of_le h.length_le
  scanAll fuel rest hrest := by
    have hblank : ∀ fuel, Token.scanAll fuel (' ' :: (cs ++ rest)) = Token.scanAll fuel (cs ++ rest) := by
      intro fuel
      cases fuel <;> rfl
    rw [List.cons_append, hblank, h.scanAll fuel rest hrest]

/-- Texts with commas between them. -/
theorem scans_intercalate {α : Type} {xs : List α} (text : α → String) (tokens : α → List Token)
    (h : ∀ x ∈ xs, Scans (text x).toList (tokens x)) :
    Scans (",".intercalate (xs.map text)).toList (separated (xs.map tokens)) := by
  induction xs with
  | nil => exact scans_nil
  | cons x xs ih =>
    obtain ⟨hx, hxs⟩ := List.forall_mem_cons.1 h
    cases xs with
    | nil => simpa [separated] using hx
    | cons y xs =>
      have hmore := hx.comma (ih hxs)
      rw [List.map_cons] at hmore
      rw [List.map_cons, List.map_cons, String.intercalate_cons_cons, String.toList_append, String.toList_append,
        List.append_assoc]
      exact hmore

/-- What stands between two marks. -/
theorem Scans.between {cs : List Char} {ts : List Token} (h : Scans cs ts) {c d : Char} {s t : String}
    (hc : (c, s) ∈ signs) (hd : (d, t) ∈ signs) (hbreaks : ∀ rest, Breaks (d :: rest)) :
    Scans (c :: (cs ++ [d])) (.sign s :: (ts ++ [.sign t])) where
  length_le := by simpa using h.length_le
  scanAll fuel rest _ := by
    have hlength : fuel + (sign s :: (ts ++ [sign t])).length = fuel + 1 + ts.length + 1 := by
      simp only [List.length_append, List.length_cons, List.length_nil]
      omega
    rw [hlength, List.cons_append, List.append_assoc, List.singleton_append, scanAll_sign hc,
      h.scanAll _ _ (hbreaks rest), scanAll_sign hd, map_map, map_map]
    simp only [List.append_assoc, List.cons_append, List.nil_append]

end Token

open Token

/-- The text of a value is cut into the tokens of its literal. -/
theorem Literal.scans {v : Json.Value} {ts : List Token} {e : Expr} (h : Literal v ts e) :
    Scans v.render.toList ts := by
  induction h with
  | null => exact scans_word (s := "null") (by simp)
  | bool b =>
    cases b with
    | false => exact scans_word (s := "false") (by simp)
    | true => exact scans_word (s := "true") (by simp)
  | string s => exact scans_quote s
  | @array parts _ ih =>
    have hitems := scans_intercalate (fun p : Json.Value × List Token × Expr => p.1.render) (·.2.1) ih
    have hrender : (Json.Value.array (parts.map (·.1))).render =
        "[" ++ ",".intercalate (parts.map fun p => p.1.render) ++ "]" := by
      rw [Json.Value.render, ← Json.intercalate_render, List.map_map]
      rfl
    have hscans := hitems.between (c := '[') (s := "[") (d := ']') (t := "]") (by simp [signs])
      (by simp [signs]) fun rest => ⟨']', by simp, rest, rfl⟩
    rw [hrender, String.toList_append, String.toList_append]
    exact hscans
  | @object parts _ ih =>
    have hmembers := scans_intercalate
      (fun p : (String × Json.Value) × List Token × Expr => Json.quote p.1.1 ++ ":" ++ p.1.2.render)
      (fun p => .quoted p.1.1 :: .sign ":" :: p.2.1) fun p hp => by
        rw [String.toList_append, String.toList_append, List.append_assoc]
        exact (ih p hp).member p.1.1
    have hrender : (Json.Value.object (parts.map (·.1))).render =
        "\x7b" ++ ",".intercalate (parts.map fun p => Json.quote p.1.1 ++ ":" ++ p.1.2.render) ++ "\x7d" := by
      rw [Json.Value.render, ← Json.intercalate_renderMember, List.map_map]
      rfl
    have hscans := hmembers.between (c := '\x7b') (s := "\x7b") (d := '\x7d') (t := "\x7d") (by simp [signs])
      (by simp [signs]) fun rest => ⟨'\x7d', by simp, rest, rfl⟩
    rw [hrender, String.toList_append, String.toList_append]
    exact hscans

end RuleFlow.Script
