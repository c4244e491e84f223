import Mathlib.Data.List.Forall2
import Mathlib.Data.List.Infix
import RuleFlow.Proofs.Json.Path
import RuleFlow.Template

/-!
# Templates are cut without looking at the message

A text is plain, or it opens a hole that is never closed, or it has a first hole with a name and something
after it (`Template.cut_induct`). From these three cases follow the pieces of a template (`Template.Cuts`):
they are the same for all messages, and a filled template has the literal pieces as they are and for each hole
its own value (`Template.Filled`).

A template can also be filled in one pass that looks for the next hole in what is left and takes slices of it
by byte offsets (`Template.scan`). A slice fails if an offset is past the end or inside a character. The pass
gives the same text for every template and message, so no slice ever fails (`Template.scan_eq_render`).
-/

namespace RuleFlow

namespace Text

/-- How many bytes a text takes. -/
def size : List Char → Nat
  | [] => 0
  | c :: cs => c.utf8Size + size cs

/-- What follows the first `n` bytes of a text, unless the text is shorter or a character is cut. -/
def dropBytes? : Nat → List Char → Option (List Char)
  | 0, cs => some cs
  | _ + 1, [] => none
  | n + 1, c :: cs => if c.utf8Size ≤ n + 1 then dropBytes? (n + 1 - c.utf8Size) cs else none

/-- The first `n` bytes of a text, unless the text is shorter or a character is cut. -/
def takeBytes? : Nat → List Char → Option (List Char)
  | 0, _ => some []
  | _ + 1, [] => none
  | n + 1, c :: cs =>
    if c.utf8Size ≤ n + 1 then (takeBytes? (n + 1 - c.utf8Size) cs).map (c :: ·) else none

/-- The bytes of a text from one offset to another, unless these are in the wrong order, past the end or
inside a character. -/
def slice? (start stop : Nat) (cs : List Char) : Option (List Char) :=
  if start ≤ stop then (dropBytes? start cs).bind (takeBytes? (stop - start)) else none

/-- The offset in bytes at which a word occurs first in a text. -/
def find? (word : List Char) : List Char → Option Nat
  | [] => if word.isEmpty then some 0 else none
  | c :: cs => if word.isPrefixOf (c :: cs) then some 0 else (find? word cs).map (c.utf8Size + ·)

@[simp] theorem size_nil : size [] = 0 := rfl

@[simp] theorem size_cons (c : Char) (cs : List Char) : size (c :: cs) = c.utf8Size + size cs := rfl

@[simp] theorem size_append (as bs : List Char) : size (as ++ bs) = size as + size bs := by
  induction as with
  | nil => simp
  | cons a as ih => simp [ih, Nat.add_assoc]

/-- Dropping the bytes of the front of a text leaves the rest. -/
theorem dropBytes?_size (as bs : List Char) : dropBytes? (size as) (as ++ bs) = some bs := by
  induction as with
  | nil => simp [dropBytes?]
  | cons a as ih =>
    obtain ⟨n, hn⟩ := Nat.exists_eq_succ_of_ne_zero (Nat.ne_of_gt a.utf8Size_pos)
    have hsize : size (a :: as) = n + size as + 1 := by rw [size_cons, hn]; omega
    have hrest : n + size as + 1 - a.utf8Size = size as := by omega
    rw [hsize, List.cons_append, dropBytes?, if_pos (by omega), hrest, ih]

/-- Taking the bytes of the front of a text gives the front. -/
theorem takeBytes?_size (as bs : List Char) : takeBytes? (size as) (as ++ bs) = some as := by
  induction as with
  | nil => simp [takeBytes?]
  | cons a as ih =>
    obtain ⟨n, hn⟩ := Nat.exists_eq_succ_of_ne_zero (Nat.ne_of_gt a.utf8Size_pos)
    have hsize : size (a :: as) = n + size as + 1 := by rw [size_cons, hn]; omega
    have hrest : n + size as + 1 - a.utf8Size = size as := by omega
    rw [hsize, List.cons_append, takeBytes?, if_pos (by omega), hrest, ih, Option.map_some]

/-- Offsets at the ends of a part of a text give that part. -/
theorem slice?_size (as bs cs : List Char) :
    slice? (size as) (size as + size bs) (as ++ (bs ++ cs)) = some bs := by
  rw [slice?, if_pos (Nat.le_add_right ..), dropBytes?_size, Nat.add_sub_cancel_left, Option.bind_some,
    takeBytes?_size]

theorem length_le_of_dropBytes? {n : Nat} {cs rest : List Char} (h : dropBytes? n cs = some rest) :
    rest.length ≤ cs.length := by
  fun_induction dropBytes? n cs with
  | case1 cs => exact Option.some.inj h ▸ Nat.le_refl _
  | case2 => cases h
  | case3 n c cs hle ih => exact (ih h).trans (Nat.le_succ _)
  | case4 => cases h

/-- What is left is shorter if at least one byte was dropped. -/
theorem length_lt_of_dropBytes? {n : Nat} {cs rest : List Char} (h : dropBytes? (n + 1) cs = some rest) :
    rest.length < cs.length := by
  cases cs with
  | nil => simp [dropBytes?] at h
  | cons c cs =>
    rw [dropBytes?] at h
    split at h
    · exact Nat.lt_succ_of_le (length_le_of_dropBytes? h)
    · cases h

theorem find?_eq_none {word cs : List Char} (hword : word ≠ []) (h : ¬word <:+: cs) :
    find? word cs = none := by
  induction cs with
  | nil => simp [find?, hword]
  | cons c cs ih =>
    have hprefix : ¬word <+: c :: cs := fun hp => h hp.isInfix
    have hrest : ¬word <:+: cs := fun hi => h (hi.trans (List.suffix_cons c cs).isInfix)
    rw [find?, if_neg (by simpa using hprefix), ih hrest, Option.map_none]

/-- A word is found where it starts if it starts nowhere before. -/
theorem find?_append {word before after : List Char} (hword : word ≠ [])
    (h : ∀ as bs, before = as ++ bs → bs ≠ [] → ¬word <+: bs ++ (word ++ after)) :
    find? word (before ++ (word ++ after)) = some (size before) := by
  induction before with
  | nil =>
    obtain ⟨c, word, rfl⟩ := List.exists_cons_of_ne_nil hword
    rw [List.nil_append, List.cons_append, find?, if_pos (by simp), size_nil]
  | cons b before ih =>
    have hfirst : ¬word <+: b :: (before ++ (word ++ after)) := h [] (b :: before) rfl (by simp)
    have hrest := ih fun as bs hbs => h (b :: as) bs (congrArg (b :: ·) hbs)
    rw [List.cons_append, find?, if_neg (by simpa using hfirst), hrest, Option.map_some, size_cons]

/-- Nothing follows a beginning that a text does not have. -/
theorem after?_eq_none_iff {start text : List Char} : after? start text = none ↔ ¬start <+: text := by
  rw [Option.eq_none_iff_forall_ne_some]
  constructor
  · rintro h ⟨rest, rfl⟩
    exact h rest (after?_eq_some_iff.2 rfl)
  · rintro h rest hrest
    exact h ⟨rest, (after?_eq_some_iff.1 hrest).symm⟩

end Text

namespace Template

/-! ## Holes in a text -/

/-- What a hole begins with. -/
def opening : List Char := ['$', '{']

/-- A literal piece, left out if it is empty. -/
def literal? (text : List Char) : List Segment := if text = [] then [] else [.literal text]

/-- Where the opening of a hole occurs, the text is something, the opening, and something. -/
theorem opening_infix_iff {cs : List Char} :
    opening <:+: cs ↔ ∃ before after, cs = before ++ '$' :: '{' :: after := by
  constructor
  · rintro ⟨before, after, h⟩
    exact ⟨before, after, by simp [← h, opening]⟩
  · rintro ⟨before, after, rfl⟩
    exact ⟨before, after, by simp [opening]⟩

/-- A text with an opening has a first one. -/
theorem exists_first_opening {cs : List Char} (h : opening <:+: cs) :
    ∃ before after, ¬opening <:+: before ∧ cs = before ++ '$' :: '{' :: after := by
  induction cs with
  | nil => simp [opening] at h
  | cons c cs ih =>
    by_cases hfirst : opening <+: c :: cs
    · obtain ⟨after, hafter⟩ := hfirst
      exact ⟨[], after, by simp [opening], by simpa [opening] using hafter.symm⟩
    · obtain ⟨before, after, hbefore, rfl⟩ := ih ((List.infix_cons_iff.1 h).resolve_left hfirst)
      refine ⟨c :: before, after, fun hopens => ?_, rfl⟩
      obtain ⟨rest, hrest⟩ := (List.infix_cons_iff.1 hopens).resolve_right hbefore
      exact hfirst ⟨rest ++ '$' :: '{' :: after, by rw [← List.append_assoc, hrest, List.cons_append]⟩

/-- What follows some opening is a part of what follows the first one. -/
theorem suffix_of_first {before after start rest : List Char} (h : ¬opening <:+: before)
    (heq : before ++ '$' :: '{' :: after = start ++ '$' :: '{' :: rest) : rest <:+ after := by
  rcases List.append_eq_append_iff.1 heq with ⟨more, rfl, hmore⟩ | ⟨more, rfl, hmore⟩
  · cases more with
    | nil => exact ⟨[], by simpa using hmore.symm⟩
    | cons c more =>
      cases more with
      | nil => simp at hmore
      | cons c' more => exact ⟨more ++ ['$', '{'], by simp_all⟩
  · cases more with
    | nil => exact ⟨[], by simpa using hmore⟩
    | cons c more =>
      cases more with
      | nil => simp at hmore
      | cons c' more =>
        obtain ⟨rfl, rfl, -⟩ : '$' = c ∧ '{' = c' ∧ rest = more ++ '$' :: '{' :: after := by
          simpa using hmore
        exact absurd (opening_infix_iff.2 ⟨start, more, rfl⟩) h

/-- A text is plain, or its first hole is never closed, or it has a first hole and more text after it. -/
theorem cut_induct {P : List Char → Prop} (plain : ∀ cs, ¬opening <:+: cs → P cs)
    (unclosed : ∀ before after, ¬opening <:+: before → '}' ∉ after →
      P (before ++ '$' :: '{' :: after))
    (hole : ∀ before name rest, ¬opening <:+: before → '}' ∉ name → P rest →
      P (before ++ '$' :: '{' :: (name ++ '}' :: rest))) (cs : List Char) : P cs := by
  by_cases hopens : opening <:+: cs
  · obtain ⟨before, after, hbefore, rfl⟩ := exists_first_opening hopens
    by_cases hclose : '}' ∈ after
    · obtain ⟨name, rest, rfl, hname⟩ := List.eq_append_cons_of_mem hclose
      exact hole before name rest hbefore hname (cut_induct plain unclosed hole rest)
    · exact unclosed before after hbefore hclose
  · exact plain cs hopens
termination_by cs.length
decreasing_by subst_vars; simp; omega

theorem outside_of_plain {cs : List Char} (h : ¬opening <:+: cs) (text : List Char) :
    outside text cs = literal? (text.reverse ++ cs) := by
  induction cs generalizing text with
  | nil => simp [outside, literal?]
  | cons c cs ih =>
    rw [List.infix_cons_iff, not_or] at h
    rw [outside, ih h.2]
    · simp
    · rintro cs' rfl rfl
      exact h.1 (by simp [opening])

/-- At the first opening a hole begins if it is closed; else the whole text is literal. -/
theorem outside_append {before : List Char} (h : ¬opening <:+: before) (text after : List Char) :
    outside text (before ++ '$' :: '{' :: after) =
      if '}' ∈ after then literal? (text.reverse ++ before) ++ inside [] after
      else [.literal (text.reverse ++ before ++ '$' :: '{' :: after)] := by
  induction before generalizing text with
  | nil =>
    rw [List.nil_append, outside]
    cases text <;> simp [literal?]
  | cons c before ih =>
    rw [List.infix_cons_iff, not_or] at h
    rw [List.cons_append, outside, ih h.2]
    · simp
    · rintro cs rfl hcs
      cases before with
      | nil => simp at hcs
      | cons b before => exact h.1 (by simp_all [opening])

/-- A hole ends at the first closing brace and the rest is cut on its own. -/
theorem inside_append {rest : List Char} (text : List Char) {name : List Char} (h : '}' ∉ name) :
    inside text (name ++ '}' :: rest) = .hole (text.reverse ++ name) :: outside [] rest := by
  induction name generalizing text with
  | nil => simp [inside]
  | cons c name ih =>
    rw [List.mem_cons, not_or] at h
    rw [List.cons_append, inside, ih _ h.2]
    · simp
    · exact fun hc => h.1 hc.symm

/-- A text with a hole that is never closed is one literal piece. -/
theorem outside_of_unclosed {before after : List Char} (h : ¬opening <:+: before) (hclose : '}' ∉ after) :
    outside [] (before ++ '$' :: '{' :: after) = [.literal (before ++ '$' :: '{' :: after)] := by
  rw [outside_append h, if_neg hclose, List.reverse_nil, List.nil_append]

/-- A text with a hole: what stands before, the hole, and the pieces of the rest. -/
theorem outside_of_hole {before name : List Char} (h : ¬opening <:+: before) (hname : '}' ∉ name)
    (rest : List Char) :
    outside [] (before ++ '$' :: '{' :: (name ++ '}' :: rest)) =
      literal? before ++ .hole name :: outside [] rest := by
  rw [outside_append h, if_pos (by simp), inside_append [] hname]
  rfl

/-! ## The pieces of a template -/

/-- Pieces of a template: written down again they give it, no name has a closing sign in it, and no literal
piece has an opening in it, but for the last one, which may if nothing closes it. -/
structure Cuts (template : List Char) (segments : List Segment) : Prop where
  written : segments.flatMap Segment.write = template
  names : ∀ name, .hole name ∈ segments → '}' ∉ name
  literals : ∀ text after, .literal text :: after <:+ segments →
    ∀ start rest, text = start ++ '$' :: '{' :: rest → after = [] ∧ '}' ∉ rest

theorem mem_literal? {text : List Char} {segment : Segment} (h : segment ∈ literal? text) :
    segment = .literal text := by
  unfold literal? at h
  split at h
  · cases h
  · exact List.mem_singleton.1 h

theorem names_outside (cs : List Char) : ∀ name, .hole name ∈ outside [] cs → '}' ∉ name := by
  induction cs using cut_induct with
  | plain cs hcs =>
    intro name hname
    rw [outside_of_plain hcs] at hname
    cases mem_literal? hname
  | unclosed before after hbefore hafter =>
    intro name hname
    simp [outside_of_unclosed hbefore hafter] at hname
  | hole before name rest hbefore hname ih =>
    intro name' hname'
    rw [outside_of_hole hbefore hname, List.mem_append, List.mem_cons] at hname'
    rcases hname' with hliteral | heq | hrest
    · cases mem_literal? hliteral
    · exact Segment.hole.inj heq ▸ hname
    · exact ih name' hrest

/-- A literal piece that holds an opening is the last one, and the opening is never closed. -/
theorem literals_outside (cs : List Char) :
    ∀ text after, .literal text :: after <:+ outside [] cs →
      ∀ start rest, text = start ++ '$' :: '{' :: rest → after = [] ∧ '}' ∉ rest := by
  induction cs using cut_induct with
  | plain cs hcs =>
    intro text after hsuffix start rest htext
    rw [outside_of_plain hcs] at hsuffix
    obtain rfl := Segment.literal.inj (mem_literal? (hsuffix.mem List.mem_cons_self))
    exact absurd (opening_infix_iff.2 ⟨start, rest, htext⟩) hcs
  | unclosed before behind hbefore hbehind =>
    intro text after hsuffix start rest htext
    rw [outside_of_unclosed hbefore hbehind, List.suffix_cons_iff] at hsuffix
    obtain ⟨hliteral, rfl⟩ := List.cons.inj (hsuffix.resolve_right (by simp))
    have hsplit := (Segment.literal.inj hliteral).symm.trans htext
    exact ⟨rfl, fun hmem => hbehind ((suffix_of_first hbefore hsplit).mem hmem)⟩
  | hole before name left hbefore hname ih =>
    intro text after hsuffix start rest htext
    rw [outside_of_hole hbefore hname, literal?] at hsuffix
    -- The piece lies behind the hole, for the one before it has no opening.
    have hbehind : .literal text :: after <:+ outside [] left := by
      split at hsuffix
      · simpa [List.suffix_cons_iff] using hsuffix
      · rw [List.singleton_append, List.suffix_cons_iff] at hsuffix
        rcases hsuffix with hfirst | hlater
        · obtain rfl := Segment.literal.inj (List.cons.inj hfirst).1
          exact absurd (opening_infix_iff.2 ⟨start, rest, htext⟩) hbefore
        · simpa [List.suffix_cons_iff] using hlater
    exact ih text after hbehind start rest htext

theorem cuts_parse (template : String) : Cuts template.toList (parse template) where
  written := write_parse template
  names := names_outside template.toList
  literals := literals_outside template.toList

/-! ## The value of a hole -/

/-- The names that stand for a part of a message that is always there. -/
def fixedNames : List (List Char) := ["msgId".toList, "msgType".toList, "msg".toList]

/-- The text that a hole with some name stands for in a message. -/
inductive StandsFor (m : Message) : List Char → String → Prop
  | id : StandsFor m "msgId".toList m.id.render
  | type : StandsFor m "msgType".toList m.type
  | data : StandsFor m "msg".toList m.data.render
  | found {path : List Char} {v : Json.Value} : m.data.at? path = some v →
    StandsFor m ("msg.".toList ++ path) v.plain
  | missing {path : List Char} : m.data.at? path = none → StandsFor m ("msg.".toList ++ path) ""
  | metadata {key value : String} : m.metadata.get? key = some value →
    StandsFor m ("metadata.".toList ++ key.toList) value
  | absent {key : String} : m.metadata.get? key = none →
    StandsFor m ("metadata.".toList ++ key.toList) ""
  | unknown {name : List Char} : name ∉ fixedNames → ¬"msg.".toList <+: name →
    ¬"metadata.".toList <+: name → StandsFor m name ""

/-- A hole without a fixed name is filled from the data, or from the metadata, or with nothing. -/
theorem fill_of_not_mem (m : Message) {name : List Char} (h : name ∉ fixedNames) :
    fill m name = (Text.after? "msg.".toList name).elim
      ((Text.after? "metadata.".toList name).elim "" fun key =>
        (m.metadata.get? (String.ofList key)).getD "")
      fun path => ((m.data.at? path).map Json.Value.plain).getD "" := by
  have hne : ∀ s : String, s.toList ∈ fixedNames → String.ofList name ≠ s := by
    rintro s hs rfl
    rw [String.toList_ofList] at hs
    exact h hs
  unfold fill
  split
  · rename_i heq
    exact absurd heq (hne _ (by simp [fixedNames]))
  · rename_i heq
    exact absurd heq (hne _ (by simp [fixedNames]))
  · rename_i heq
    exact absurd heq (hne _ (by simp [fixedNames]))
  · cases Text.after? "msg.".toList name with
    | some path => rfl
    | none => cases Text.after? "metadata.".toList name <;> rfl

/-- A hole that names a path is filled with what the data hold there, or with nothing. -/
theorem fill_path (m : Message) (path : List Char) :
    fill m ("msg.".toList ++ path) = ((m.data.at? path).map Json.Value.plain).getD "" := by
  rw [fill_of_not_mem m (by simp [fixedNames]), Text.after?_eq_some_iff.2 rfl, Option.elim_some]

/-- A hole that names a key is filled with what the metadata hold there, or with nothing. -/
theorem fill_key (m : Message) (key : String) :
    fill m ("metadata.".toList ++ key.toList) = (m.metadata.get? key).getD "" := by
  rw [fill_of_not_mem m (by simp [fixedNames]), Text.after?_eq_none_iff.2 (by simp), Option.elim_none,
    Text.after?_eq_some_iff.2 rfl, Option.elim_some, String.ofList_toList]

/-- A hole stands for what it is filled with. -/
theorem standsFor_fill (m : Message) (name : List Char) : StandsFor m name (fill m name) := by
  by_cases hfixed : name ∈ fixedNames
  · simp only [fixedNames, List.mem_cons, List.not_mem_nil, or_false] at hfixed
    rcases hfixed with rfl | rfl | rfl
    · exact .id
    · exact .type
    · exact .data
  · by_cases hpath : "msg.".toList <+: name
    · obtain ⟨path, rfl⟩ := hpath
      rw [fill_path]
      cases hv : m.data.at? path with
      | some v => exact .found hv
      | none => exact .missing hv
    · by_cases hkey : "metadata.".toList <+: name
      · obtain ⟨key, rfl⟩ := hkey
        rw [← String.toList_ofList (l := key), fill_key]
        cases hvalue : m.metadata.get? (String.ofList key) with
        | some value => exact .metadata hvalue
        | none => exact .absent hvalue
      · rw [fill_of_not_mem m hfixed, Text.after?_eq_none_iff.2 hpath, Text.after?_eq_none_iff.2 hkey]
        exact .unknown hfixed hpath hkey

/-- A hole stands for nothing else. -/
theorem StandsFor.eq_fill {m : Message} {name : List Char} {value : String}
    (h : StandsFor m name value) : value = fill m name := by
  cases h with
  | id => rfl
  | type => rfl
  | data => rfl
  | found hv => rw [fill_path, hv]; rfl
  | missing hv => rw [fill_path, hv]; rfl
  | metadata hvalue => rw [fill_key, hvalue]; rfl
  | absent hvalue => rw [fill_key, hvalue]; rfl
  | unknown hfixed hpath hkey =>
    rw [fill_of_not_mem m hfixed, Text.after?_eq_none_iff.2 hpath, Text.after?_eq_none_iff.2 hkey]
    rfl

/-- What a piece becomes for a message: a literal piece stays as it is. -/
inductive Segment.Becomes (m : Message) : Segment → String → Prop
  | literal (text : List Char) : Becomes m (.literal text) (String.ofList text)
  | hole {name : List Char} {value : String} : StandsFor m name value → Becomes m (.hole name) value

/-- Some text is made of what some pieces become for a message, in their order. -/
def Filled (m : Message) (segments : List Segment) (text : String) : Prop :=
  ∃ parts, List.Forall₂ (Segment.Becomes m) segments parts ∧ text.toList = parts.flatMap String.toList

theorem Segment.becomes_iff {m : Message} {segment : Segment} {text : String} :
    segment.Becomes m text ↔ segment.render m = text := by
  constructor
  · rintro (_ | hvalue)
    · rfl
    · exact hvalue.eq_fill.symm
  · rintro rfl
    cases segment with
    | literal text => exact .literal text
    | hole name => exact .hole (standsFor_fill m name)

theorem toList_foldl_append (parts : List String) (start : String) :
    (parts.foldl (· ++ ·) start).toList = start.toList ++ parts.flatMap String.toList := by
  induction parts generalizing start with
  | nil => simp
  | cons part parts ih => simp [ih]

/-- What a template is filled to is what it is rendered as. -/
theorem filled_parse_iff (template : String) (m : Message) (text : String) :
    Filled m (parse template) text ↔ text = render template m := by
  have hparts : ∀ parts, List.Forall₂ (Segment.Becomes m) (parse template) parts ↔
      (parse template).map (Segment.render m) = parts := by
    intro parts
    rw [← List.forall₂_eq_eq_eq, List.forall₂_map_left_iff]
    exact ⟨fun h => h.imp fun _ _ => Segment.becomes_iff.1,
      fun h => h.imp fun _ _ => Segment.becomes_iff.2⟩
  simp only [Filled, hparts, exists_eq_left', render, ← String.toList_inj, toList_foldl_append]
  simp

/-! ## Filling in one pass -/

/-- Fills what is left of a template in one pass, behind what is filled already. There is no result if a slice
fails. -/
def scan (m : Message) (done : String) (left : List Char) : Option String :=
  match Text.find? opening left with
  | none => some (done ++ String.ofList left)
  | some start =>
    match Text.dropBytes? start left with
    | none => none
    | some tail =>
      match Text.find? ['}'] tail with
      | none => some (done ++ String.ofList left)
      | some stop =>
        match Text.slice? 0 start left, Text.slice? (start + 2) (start + stop) left,
          _hrest : Text.dropBytes? (start + stop + 1) left with
        | some before, some name, some rest =>
          scan m (done ++ String.ofList before ++ fill m name) rest
        | _, _, _ => none
termination_by left.length
decreasing_by exact Text.length_lt_of_dropBytes? _hrest

/-- The first opening is found behind text without one. -/
theorem find?_opening {before : List Char} (h : ¬opening <:+: before) (after : List Char) :
    Text.find? opening (before ++ '$' :: '{' :: after) = some (Text.size before) := by
  refine Text.find?_append (by simp [opening]) fun as bs hsplit hbs hprefix => ?_
  obtain ⟨rest, hrest⟩ := hprefix
  have hlater : before ++ '$' :: '{' :: after = as ++ '$' :: '{' :: rest := by
    rw [hsplit, List.append_assoc]
    exact congrArg (as ++ ·) hrest.symm
  have hlength := (suffix_of_first h hlater).length_le
  have hlengths := congrArg List.length hlater
  have hpos := List.length_pos_iff.2 hbs
  simp only [hsplit, List.length_append, List.length_cons] at hlengths
  omega

/-- The first closing sign is found behind text without one. -/
theorem find?_close {name : List Char} (h : '}' ∉ name) (rest : List Char) :
    Text.find? ['}'] (name ++ '}' :: rest) = some (Text.size name) := by
  refine Text.find?_append (by simp) fun as bs hsplit hbs hprefix => ?_
  obtain ⟨c, bs, rfl⟩ := List.exists_cons_of_ne_nil hbs
  obtain rfl : '}' = c := by simpa using hprefix
  exact h (hsplit ▸ by simp)

theorem find?_close_eq_none {cs : List Char} (h : '}' ∉ cs) : Text.find? ['}'] cs = none :=
  Text.find?_eq_none (by simp) fun hwithin => h (hwithin.mem List.mem_cons_self)

theorem scan_of_plain (m : Message) (done : String) {cs : List Char} (h : ¬opening <:+: cs) :
    scan m done cs = some (done ++ String.ofList cs) := by
  rw [scan, Text.find?_eq_none (by simp [opening]) h]

/-- A text with a hole that is never closed is copied. -/
theorem scan_of_unclosed (m : Message) (done : String) {before after : List Char}
    (h : ¬opening <:+: before) (hclose : '}' ∉ after) :
    scan m done (before ++ '$' :: '{' :: after) =
      some (done ++ String.ofList (before ++ '$' :: '{' :: after)) := by
  have hnone : Text.find? ['}'] ('$' :: '{' :: after) = none := find?_close_eq_none (by simp [hclose])
  simp only [scan, find?_opening h, Text.dropBytes?_size, hnone]

theorem size_opening : Text.size opening = 2 := rfl

theorem size_close : Text.size ['}'] = 1 := rfl

/-- A hole is filled and what follows it is left. All slices that are taken exist. -/
theorem scan_of_hole (m : Message) (done : String) {before name : List Char} (h : ¬opening <:+: before)
    (hname : '}' ∉ name) (rest : List Char) :
    scan m done (before ++ '$' :: '{' :: (name ++ '}' :: rest)) =
      scan m (done ++ String.ofList before ++ fill m name) rest := by
  have hstop : Text.find? ['}'] ('$' :: '{' :: (name ++ '}' :: rest)) = some (2 + Text.size name) := by
    rw [← List.cons_append, ← List.cons_append, find?_close (by simp [hname])]
    exact congrArg some (Nat.add_assoc 1 1 _).symm
  have hbefore : Text.slice? 0 (Text.size before) (before ++ '$' :: '{' :: (name ++ '}' :: rest)) =
      some before := by
    simpa using Text.slice?_size [] before ('$' :: '{' :: (name ++ '}' :: rest))
  have hinside : Text.slice? (Text.size before + 2) (Text.size before + (2 + Text.size name))
      (before ++ '$' :: '{' :: (name ++ '}' :: rest)) = some name := by
    have hslice := Text.slice?_size (before ++ opening) name ('}' :: rest)
    rw [Text.size_append, size_opening] at hslice
    simpa [opening, Nat.add_assoc] using hslice
  have hrest : Text.dropBytes? (Text.size before + (2 + Text.size name) + 1)
      (before ++ '$' :: '{' :: (name ++ '}' :: rest)) = some rest := by
    have hdrop := Text.dropBytes?_size (before ++ (opening ++ (name ++ ['}']))) rest
    rw [Text.size_append, Text.size_append, Text.size_append, size_opening, size_close] at hdrop
    simpa [opening, Nat.add_assoc] using hdrop
  rw [scan]
  simp only [find?_opening h, Text.dropBytes?_size, hstop, hbefore, hinside]
  split
  · rename_i hb hn hr
    obtain rfl := Option.some.inj hb
    obtain rfl := Option.some.inj hn
    obtain rfl := Option.some.inj (hrest.symm.trans hr)
    rfl
  · rename_i hnone
    exact (hnone before name rest rfl rfl hrest).elim

/-- The pass renders one piece after the other, and none of its slices fails. -/
theorem scan_eq_foldl (m : Message) (done : String) (cs : List Char) :
    scan m done cs = some (((outside [] cs).map (Segment.render m)).foldl (· ++ ·) done) := by
  have hliteral : ∀ (done : String) (text : List Char),
      ((literal? text).map (Segment.render m)).foldl (· ++ ·) done = done ++ String.ofList text := by
    intro done text
    unfold literal?
    split <;> simp_all [Segment.render]
  induction cs using cut_induct generalizing done with
  | plain cs hcs =>
    rw [scan_of_plain m done hcs, outside_of_plain hcs, hliteral, List.reverse_nil, List.nil_append]
  | unclosed before after hbefore hafter =>
    rw [scan_of_unclosed m done hbefore hafter, outside_of_unclosed hbefore hafter]
    rfl
  | hole before name rest hbefore hname ih =>
    rw [scan_of_hole m done hbefore hname, ih, outside_of_hole hbefore hname, List.map_append,
      List.foldl_append, hliteral]
    rfl

/-- The pass over a template gives the filled template; no slice fails. -/
theorem scan_eq_render (template : String) (m : Message) :
    scan m "" template.toList = some (render template m) := scan_eq_foldl m "" template.toList

/-- A template has pieces that do not depend on any message. Filled from a message it is made of them: the
literal pieces as they are, and for each hole its value in the message and nothing else. So what comes from
the message is not looked at again. Filling it in one pass by slices gives the same, and each slice exists. -/
theorem segmented (template : String) :
    ∃ segments, Cuts template.toList segments ∧
      ∀ m : Message, (∀ text, Filled m segments text ↔ text = render template m) ∧
        scan m "" template.toList = some (render template m) :=
  ⟨parse template, cuts_parse template, fun m =>
    ⟨filled_parse_iff template m, scan_eq_render template m⟩⟩

/-- A whole placeholder in the metadata comes out as it is, and so does an opening at the end. -/
example :
    render "<$\x7bmetadata.k\x7d>$\x7b"
      { id := ⟨0⟩, type := "", metadata := .ofList [("k", "$\x7bmsg\x7d")], data := .null, timestamp := 0 } =
        "<$\x7bmsg\x7d>$\x7b" := by
  decide +kernel

end Template

end RuleFlow
