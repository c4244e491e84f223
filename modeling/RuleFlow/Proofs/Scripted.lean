import RuleFlow.Proofs.Services
import RuleFlow.Proofs.Table

/-!
# What nodes with a script tell

The script of a filter, a switch or a transformation returns a text or a fault, in whatever language it is written
(`Script.Language`); the text is read as JSON, and the JSON as what the node needs. What follows holds of all
languages.

The rules say without the decoders what may come of this. `ScriptedNode.Fails` lists the ways in which a script
comes to nothing for a node, each with its fault, and `ScriptedNode.Uses` what a node tells for a result that it
can use. One of them is always the case, and a node does exactly what they say: for a fault it tells one message,
which came in and got a note, under the label of failures, and else it tells the listed messages one after the
other, up to the first error (`Component.run_scripted`).
-/

namespace RuleFlow

variable {ω : Type}

/-- What a script returns in a language is read in one go, whatever it is read as. -/
theorem Script.Runtime.bind_ofLanguage {α : Type} (l : Language) (m : Message) (script : String)
    (read : Json.Value → Except Fault α) :
    (ofLanguage l m script : Query ω String).bind (fun text => .ofScript (readResult text >>= read)) =
      .ofScript ((l.evaluate m script).bind read) := by
  simp only [ofLanguage, Language.evaluate]
  cases l m script <;> rfl

namespace Services

variable {s : Services ω} {l : Script.Language}

/-- A filter evaluates its script in the language and reads a truth value. -/
theorem filter_withLanguage : (s.withLanguage l).filter =
    fun m script => .ofScript ((l.evaluate m script).bind Script.filterResult) :=
  funext₂ fun m script => Script.Runtime.bind_ofLanguage l m script _

/-- A switch evaluates its script in the language and reads labels. -/
theorem switch_withLanguage : (s.withLanguage l).switch =
    fun m script => .ofScript ((l.evaluate m script).bind Script.switchResult) :=
  funext₂ fun m script => Script.Runtime.bind_ofLanguage l m script _

/-- A transformation evaluates its script in the language and reads a message. -/
theorem transform_withLanguage : (s.withLanguage l).transform =
    fun m script => .ofScript ((l.evaluate m script).bind (Script.transformResult m)) :=
  funext₂ fun m script => Script.Runtime.bind_ofLanguage l m script _

end Services

/-- A message that is another one but for the text under `error` in its metadata. -/
structure Message.Reports (m sent : Message) (text : String) : Prop where
  id : sent.id = m.id
  type : sent.type = m.type
  data : sent.data = m.data
  timestamp : sent.timestamp = m.timestamp
  error : sent.metadata.get? "error" = some text
  others : ∀ key, key ≠ "error" → sent.metadata.get? key = m.metadata.get? key

/-- A message with a note reports the text and nothing else has changed. -/
theorem Message.reports_note (m : Message) (text : String) : m.Reports (m.note "error" text) text where
  id := rfl
  type := rfl
  data := rfl
  timestamp := rfl
  error := Table.get?_insert_self ..
  others key hkey := by rw [note, Table.get?_insert, if_neg hkey]

namespace Plan

variable {deliver : String → Message → Journey ω → Step ω (Result Unit)}

/-- Tells messages one after the other, each under its label, up to the first error. -/
def tellAll (deliver : String → Message → Journey ω → Step ω (Result Unit)) :
    List (String × Message) → Journey ω → Step ω Outcome
  | [], j => some (.done, j)
  | (label, m) :: told, j =>
    match deliver label m j with
    | some (.ok (), j) => tellAll deliver told j
    | some (.error e, j) => some (.failed e, j)
    | none => none

theorem run_forward (label : String) (m : Message) (j : Journey ω) :
    (forward label m).run deliver j = tellAll deliver [(label, m)] j := by
  simp only [forward, run, tellAll]
  obtain - | ⟨_ | _, j'⟩ := deliver label m j <;> rfl

theorem run_forwardAll (m : Message) (labels : List String) (j : Journey ω) :
    (forwardAll m labels).run deliver j = tellAll deliver (labels.map fun label => (label, m)) j := by
  induction labels generalizing j with
  | nil => rfl
  | cons label labels ih =>
    simp only [forwardAll, run, List.map_cons, tellAll]
    obtain - | ⟨_ | _, j'⟩ := deliver label m j
    · rfl
    · rfl
    · exact ih j'

end Plan

namespace Json

/-- Members whose values are texts. -/
def textMembers (es : List (String × String)) : Members := es.map fun e => (e.1, .string e.2)

/-- A list comes from another by a function, or it has a first item that does not. -/
theorem eq_map_or_exists_first {α β : Type} (f : α → β) (bs : List β) :
    (∃ as : List α, bs = as.map f) ∨
      ∃ (as : List α) (b : β) (after : List β), bs = as.map f ++ b :: after ∧ ∀ a, b ≠ f a := by
  induction bs with
  | nil => exact .inl ⟨[], rfl⟩
  | cons b bs ih =>
    by_cases hb : ∃ a, b = f a
    · obtain ⟨a, rfl⟩ := hb
      obtain ⟨as, rfl⟩ | ⟨as, c, after, rfl, hc⟩ := ih
      · exact .inl ⟨a :: as, rfl⟩
      · exact .inr ⟨a :: as, c, after, rfl, hc⟩
    · exact .inr ⟨[], b, bs, rfl, fun a ha => hb ⟨a, ha⟩⟩

namespace Decoder

theorem string_ofValue_of_ne {v : Value} (h : ∀ s, v ≠ .string s) :
    string.ofValue v = .error (.mismatch v.found .string) := by
  cases v with
  | string s => exact absurd rfl (h s)
  | _ => rfl

/-- Reading members of a map of strings goes through the texts in order. -/
theorem foldlM_textMembers (es : List (String × String)) (t : Table String) :
    (textMembers es).foldlM (fun acc (k, v) => do .ok (Table.insert acc k (← string.ofValue v))) t =
      (.ok (es.foldl (fun t e => t.insert e.1 e.2) t) : Except Cause (Table String)) := by
  induction es generalizing t with
  | nil => rfl
  | cons e es ih => exact ih (t.insert e.1 e.2)

/-- An object of texts reads as the table of these texts. -/
theorem stringMap_textMembers (es : List (String × String)) :
    stringMap.ofValue (.object (textMembers es)) = .ok (Table.ofList es) :=
  foldlM_textMembers es _

theorem stringMap_of_not_object {v : Value} (h : ∀ ms, v ≠ .object ms) :
    stringMap.ofValue v = .error (.mismatch v.found .map) := by
  cases v with
  | object ms => exact absurd rfl (h ms)
  | _ => rfl

/-- The first member that is no text is what the reading fails at. -/
theorem stringMap_of_not_text (es : List (String × String)) {k : String} {v : Value} (h : ∀ s, v ≠ .string s)
    (after : Members) : stringMap.ofValue (.object (textMembers es ++ (k, v) :: after)) =
      .error (.mismatch v.found .string) := by
  simp only [stringMap, List.foldlM_append, foldlM_textMembers, List.foldlM_cons, string_ofValue_of_ne h]
  rfl

end Decoder

end Json

namespace ScriptedNode

/-! ## What a node needs of a script -/

/-- The types of nodes with a script. -/
inductive Kind where
  | filter
  | switch
  | transform

/-- A node of a type. -/
def Kind.component : Kind → ScriptedNode → Component
  | filter => .filter
  | switch => .switch
  | transform => .transform

/-- How a script comes to nothing for a node, and with which fault: it has no result, or the result is none that
the node can use. -/
inductive Fails : Kind → Except Script.Fault Json.Value → Script.Fault → Prop
  | noResult {kind : Kind} (fault : Script.Fault) : Fails kind (.error fault) fault
  | notBoolean {v : Json.Value} (h : ∀ b, v ≠ .bool b) : Fails .filter (.ok v) (.notBoolean v)
  | notLabels {v : Json.Value} (hstring : ∀ s, v ≠ .string s) (harray : ∀ items, v ≠ .array items) :
    Fails .switch (.ok v) (.notLabels v)
  | notLabel {v : Json.Value} (labels : List String) (h : ∀ s, v ≠ .string s) (after : List Json.Value) :
    Fails .switch (.ok (.array (labels.map .string ++ v :: after))) (.notLabel v)
  | notMap {ms : Json.Members} {data v : Json.Value} (hdata : Entries.get? "msg" ms = some data)
    (hmetadata : Entries.get? "metadata" ms = some v) (h : ∀ more, v ≠ .object more) :
    Fails .transform (.ok (.object ms)) (.badMetadata (.mismatch v.found .map))
  | notText {ms : Json.Members} {data v : Json.Value} {key : String} {es : List (String × String)}
    {after : Json.Members} (hdata : Entries.get? "msg" ms = some data)
    (hmetadata : Entries.get? "metadata" ms = some (.object (Json.textMembers es ++ (key, v) :: after)))
    (h : ∀ s, v ≠ .string s) :
    Fails .transform (.ok (.object ms)) (.badMetadata (.mismatch v.found .string))

/-- The metadata of a message after a result with these members. -/
inductive Brings (m : Message) (ms : Json.Members) : Table String → Prop
  | none (h : Entries.get? "metadata" ms = none) : Brings m ms m.metadata
  | some {es : List (String × String)} (h : Entries.get? "metadata" ms = some (.object (Json.textMembers es))) :
    Brings m ms (.ofList es)

/-- The type of a message after a result with these members. -/
inductive Names (m : Message) (ms : Json.Members) : String → Prop
  | none (h : ∀ s, Entries.get? "msgType" ms ≠ some (.string s)) : Names m ms m.type
  | some {type : String} (h : Entries.get? "msgType" ms = some (.string type)) : Names m ms type

/-- What a node tells for a result that it can use, in a context and for a message. -/
inductive Uses (ctx : Context) (m : Message) : Kind → Except Script.Fault Json.Value →
    List (String × Message) → Prop
  | passes : Uses ctx m .filter (.ok (.bool true)) [(trueLabel, m)]
  | drops : Uses ctx m .filter (.ok (.bool false)) [(falseLabel, m)]
  | label (label : String) :
    Uses ctx m .switch (.ok (.string label)) (([label].filter ctx.hasRoute).map fun label => (label, m))
  | labels (labels : List String) :
    Uses ctx m .switch (.ok (.array (labels.map .string)))
      ((labels.filter ctx.hasRoute).map fun label => (label, m))
  | data {v : Json.Value} (h : ∀ ms, v = .object ms → Entries.get? "msg" ms = none) :
    Uses ctx m .transform (.ok v) [(successLabel, { m with data := v })]
  | message {ms : Json.Members} {data : Json.Value} {metadata : Table String} {type : String}
    (hdata : Entries.get? "msg" ms = some data) (hmetadata : Brings m ms metadata) (htype : Names m ms type) :
    Uses ctx m .transform (.ok (.object ms)) [(successLabel, { m with data, metadata, type })]

/-! ## The decoders keep to the rules -/

section Results

open Script

theorem filterResult_of_ne {v : Json.Value} (h : ∀ b, v ≠ .bool b) : filterResult v = .error (.notBoolean v) := by
  cases v with
  | bool b => exact absurd rfl (h b)
  | _ => rfl

/-- What is neither a text nor an array is no answer of a switch. -/
theorem switchResult_of_ne {v : Json.Value} (hstring : ∀ s, v ≠ .string s)
    (harray : ∀ items, v ≠ .array items) : switchResult v = .error (.notLabels v) := by
  cases v with
  | string s => exact absurd rfl (hstring s)
  | array items => exact absurd rfl (harray items)
  | _ => rfl

theorem labelsOf_map (labels : List String) : labelsOf (labels.map .string) = .ok labels := by
  induction labels with
  | nil => rfl
  | cons label labels ih => simp only [List.map_cons, labelsOf, ih, Except.map]

/-- The first item that is no text is what the reading fails at. -/
theorem labelsOf_append_cons (labels : List String) {v : Json.Value} (h : ∀ s, v ≠ .string s)
    (after : List Json.Value) : labelsOf (labels.map .string ++ v :: after) = .error (.notLabel v) := by
  induction labels with
  | nil =>
    cases v with
    | string s => exact absurd rfl (h s)
    | _ => rfl
  | cons label labels ih => simp only [List.map_cons, List.cons_append, labelsOf, ih, Except.map]

/-- A value that does not wrap a message becomes the data. -/
theorem transformResult_of_bare (m : Message) {v : Json.Value}
    (h : ∀ ms, v = .object ms → Entries.get? "msg" ms = none) :
    transformResult m v = .ok { m with data := v } := by
  cases v with
  | object ms => simp only [transformResult, h ms rfl]
  | _ => rfl

/-- What an object brings is what is written into the message. -/
theorem Brings.withMetadata {m : Message} {ms : Json.Members} {metadata : Table String}
    (h : Brings m ms metadata) (data : Json.Value) :
    withMetadata { m with data } (Entries.get? "metadata" ms) = .ok { m with data, metadata } := by
  cases h with
  | none h => rw [h]; rfl
  | some h => simp only [h, Script.withMetadata, Json.Decoder.stringMap_textMembers]

/-- An object that wraps a message gives its data, its metadata and its type. -/
theorem transformResult_of_message {m : Message} {ms : Json.Members} {data : Json.Value} {metadata : Table String}
    {type : String} (hdata : Entries.get? "msg" ms = some data) (hmetadata : Brings m ms metadata)
    (htype : Names m ms type) : transformResult m (.object ms) = .ok { m with data, metadata, type } := by
  simp only [transformResult, hdata, hmetadata.withMetadata data]
  cases htype with
  | some h => simp only [h]; rfl
  -- that there is no type stands in the context and decides the match
  | none h => simp only [bind, Except.bind]

/-- An object that wraps a message with metadata that are no texts is a fault. -/
theorem transformResult_of_fault {m : Message} {ms : Json.Members} {data v : Json.Value} {cause : Json.Cause}
    (hdata : Entries.get? "msg" ms = some data) (hmetadata : Entries.get? "metadata" ms = some v)
    (h : Json.Decoder.stringMap.ofValue v = .error cause) :
    transformResult m (.object ms) = .error (.badMetadata cause) := by
  simp only [transformResult, hdata, hmetadata, withMetadata, h]
  rfl

end Results

namespace Kind

open Script

/-- What a node tells for the result of its script, or why it has nothing to tell. -/
def answer (ctx : Context) (m : Message) (r : Except Fault Json.Value) : Kind →
    Except Fault (List (String × Message))
  | filter => (r.bind filterResult).map fun isPassed => [(if isPassed then trueLabel else falseLabel, m)]
  | switch => (r.bind switchResult).map fun labels => (labels.filter ctx.hasRoute).map fun label => (label, m)
  | transform => (r.bind (transformResult m)).map fun made => [(successLabel, made)]

variable {kind : Kind} {ctx : Context} {m : Message} {r : Except Fault Json.Value} {fault : Fault}
  {told : List (String × Message)}

/-- Where the rules say that a node fails, the decoder fails with the same fault. -/
theorem answer_of_fails (h : Fails kind r fault) : answer ctx m r kind = .error fault := by
  cases h with
  | noResult fault => cases kind <;> rfl
  | notBoolean h => simp only [answer, Except.bind, Except.map, filterResult_of_ne h]
  | notLabels hstring harray => simp only [answer, Except.bind, Except.map, switchResult_of_ne hstring harray]
  | notLabel labels h after =>
    simp only [answer, Except.bind, Except.map, switchResult, labelsOf_append_cons labels h after]
  | notMap hdata hmetadata h =>
    simp only [answer, Except.bind, Except.map,
      transformResult_of_fault hdata hmetadata (Json.Decoder.stringMap_of_not_object h)]
  | notText hdata hmetadata h =>
    simp only [answer, Except.bind, Except.map,
      transformResult_of_fault hdata hmetadata (Json.Decoder.stringMap_of_not_text _ h _)]

/-- Where the rules say what a node uses, the decoder gives that. -/
theorem answer_of_uses (h : Uses ctx m kind r told) : answer ctx m r kind = .ok told := by
  cases h with
  | passes => rfl
  | drops => rfl
  | label label => rfl
  | labels labels => simp only [answer, Except.bind, Except.map, switchResult, labelsOf_map]
  | data h => simp only [answer, Except.bind, Except.map, transformResult_of_bare m h]
  | message hdata hmetadata htype =>
    simp only [answer, Except.bind, Except.map, transformResult_of_message hdata hmetadata htype]

/-- Every object names a type, its own or that of the message. -/
theorem exists_names (m : Message) (ms : Json.Members) : ∃ type, Names m ms type := by
  by_cases h : ∃ type, Entries.get? "msgType" ms = some (.string type)
  · obtain ⟨type, htype⟩ := h
    exact ⟨type, .some htype⟩
  · exact ⟨m.type, .none fun type htype => h ⟨type, htype⟩⟩

/-- An object that wraps a message brings metadata or fails for what it has in their place. -/
theorem exists_brings_or_fails (m : Message) {ms : Json.Members} {data : Json.Value}
    (hdata : Entries.get? "msg" ms = some data) :
    (∃ metadata, Brings m ms metadata) ∨ ∃ fault, Fails .transform (.ok (.object ms)) fault := by
  cases hmetadata : Entries.get? "metadata" ms with
  | none => exact .inl ⟨_, .none hmetadata⟩
  | some v =>
    by_cases hobject : ∃ more, v = .object more
    · obtain ⟨more, rfl⟩ := hobject
      obtain ⟨es, rfl⟩ | ⟨es, ⟨key, v⟩, after, rfl, hv⟩ :=
        Json.eq_map_or_exists_first (fun e : String × String => (e.1, Json.Value.string e.2)) more
      · exact .inl ⟨_, .some hmetadata⟩
      · refine .inr ⟨_, .notText hdata hmetadata fun s hs => hv (key, s) ?_⟩
        rw [hs]
    · exact .inr ⟨_, .notMap hdata hmetadata fun more hmore => hobject ⟨more, hmore⟩⟩

/-- The rules cover every result. -/
theorem fails_or_uses (kind : Kind) (ctx : Context) (m : Message) (r : Except Fault Json.Value) :
    (∃ fault, Fails kind r fault) ∨ ∃ told, Uses ctx m kind r told := by
  cases r with
  | error fault => exact .inl ⟨fault, .noResult fault⟩
  | ok v =>
    cases kind with
    | filter =>
      by_cases h : ∃ b, v = .bool b
      · obtain ⟨b, rfl⟩ := h
        cases b
        · exact .inr ⟨_, .drops⟩
        · exact .inr ⟨_, .passes⟩
      · exact .inl ⟨_, .notBoolean fun b hb => h ⟨b, hb⟩⟩
    | switch =>
      cases v with
      | string label => exact .inr ⟨_, .label label⟩
      | array items =>
        obtain ⟨labels, rfl⟩ | ⟨labels, v, after, rfl, hv⟩ :=
          Json.eq_map_or_exists_first Json.Value.string items
        · exact .inr ⟨_, .labels labels⟩
        · exact .inl ⟨_, .notLabel labels hv after⟩
      | _ => exact .inl ⟨_, .notLabels nofun nofun⟩
    | transform =>
      by_cases hmsg : ∃ ms data, v = .object ms ∧ Entries.get? "msg" ms = some data
      · obtain ⟨ms, data, rfl, hdata⟩ := hmsg
        obtain ⟨metadata, hmetadata⟩ | hfails := exists_brings_or_fails m hdata
        · obtain ⟨type, htype⟩ := exists_names m ms
          exact .inr ⟨_, .message hdata hmetadata htype⟩
        · exact .inl hfails
      · refine .inr ⟨_, .data fun ms hms => Option.eq_none_iff_forall_ne_some.2 fun data hdata => ?_⟩
        exact hmsg ⟨ms, data, hms, hdata⟩

theorem not_uses_of_fails (h : Fails kind r fault) : ¬Uses ctx m kind r told := by
  intro huses
  have hanswer : answer ctx m r kind = .error fault := answer_of_fails h
  rw [answer_of_uses huses] at hanswer
  cases hanswer

/-! ## The nodes -/

variable {s : Services ω} {l : Language} {n : ScriptedNode}

theorem orDivert_ofScript_of_error {α β : Type} {x : Except Fault α} {f : α → β} (h : x.map f = .error fault)
    (next : α → Plan ω) : (Query.ofScript x).orDivert m next = .divert m (.script fault) := by
  cases x with
  | error fault' =>
    cases h
    rfl
  | ok a => cases h

theorem orDivert_ofScript_of_ok {α : Type} {x : Except Fault α} {a : α} (h : x = .ok a) (next : α → Plan ω) :
    (Query.ofScript x).orDivert m next = next a := by
  subst h
  rfl

/-- A node whose script gives no answer diverts the message with a note of the fault. -/
theorem handleOver_of_error (h : answer ctx m (l.evaluate m n.script) kind = .error fault) :
    (kind.component n).handleOver (s.withLanguage l) ctx m = .divert m (.script fault) := by
  cases kind with
  | filter =>
    simp only [component, Component.handleOver, handleFilter, Services.filter_withLanguage]
    exact orDivert_ofScript_of_error h _
  | switch =>
    simp only [component, Component.handleOver, handleSwitch, Services.switch_withLanguage]
    exact orDivert_ofScript_of_error h _
  | transform =>
    simp only [component, Component.handleOver, handleTransform, Services.transform_withLanguage]
    exact orDivert_ofScript_of_error h _

theorem run_handleOver_of_ok {deliver : String → Message → Journey ω → Step ω (Result Unit)}
    (h : answer ctx m (l.evaluate m n.script) kind = .ok told) (j : Journey ω) :
    ((kind.component n).handleOver (s.withLanguage l) ctx m).run deliver j = Plan.tellAll deliver told j := by
  cases kind with
  | filter =>
    obtain ⟨isPassed, hfilter, rfl⟩ := map_eq_ok_iff.1 h
    simp only [component, Component.handleOver, handleFilter, Services.filter_withLanguage]
    rw [orDivert_ofScript_of_ok hfilter]
    cases isPassed <;> exact Plan.run_forward ..
  | switch =>
    obtain ⟨labels, hswitch, rfl⟩ := map_eq_ok_iff.1 h
    simp only [component, Component.handleOver, handleSwitch, Services.switch_withLanguage]
    rw [orDivert_ofScript_of_ok hswitch, Plan.run_forwardAll]
  | transform =>
    obtain ⟨made, htransform, rfl⟩ := map_eq_ok_iff.1 h
    simp only [component, Component.handleOver, handleTransform, Services.transform_withLanguage]
    rw [orDivert_ofScript_of_ok htransform, Plan.succeed, Plan.run_forward]

end Kind

end ScriptedNode

namespace Component

open ScriptedNode in
/-- A filter, switch or transformation with a script in any language. If the script comes to nothing, in whichever
way, then exactly one message is told: under the label of failures, and it is the message that came in with the
wording of the fault under `error`. Else exactly the messages are told that the node is to tell for the result, in
order and up to the first error. One of the two is the case, not both. The modelled language is one of these
languages, for which this is what components do. -/
theorem run_scripted (s : Services ω) (l : Script.Language) (kind : Kind) (n : ScriptedNode) (ctx : Context)
    (m : Message) :
    (∀ fault, Fails kind (l.evaluate m n.script) fault →
      ∃ sent, m.Reports sent (RuleError.script fault).message ∧ ∀ deliver j,
        ((kind.component n).handleOver (s.withLanguage l) ctx m).run deliver j =
          Plan.tellAll deliver [(failureLabel, sent)] j) ∧
      (∀ told, Uses ctx m kind (l.evaluate m n.script) told → ∀ deliver j,
        ((kind.component n).handleOver (s.withLanguage l) ctx m).run deliver j =
          Plan.tellAll deliver told j) ∧
      Xor (∃ fault, Fails kind (l.evaluate m n.script) fault)
        (∃ told, Uses ctx m kind (l.evaluate m n.script) told) ∧
      (kind.component n).handle ctx m =
        (kind.component n).handleOver (Services.world.withLanguage Script.interpreter) ctx m := by
  refine ⟨fun fault h => ⟨_, m.reports_note _, fun deliver j => ?_⟩, fun told h deliver j => ?_, ?_, ?_⟩
  · rw [Kind.handleOver_of_error (Kind.answer_of_fails h), Plan.divert, Plan.run_forward]
  · exact Kind.run_handleOver_of_ok (Kind.answer_of_uses h) j
  · obtain ⟨fault, hfails⟩ | huses := kind.fails_or_uses ctx m (l.evaluate m n.script)
    · exact .inl ⟨⟨fault, hfails⟩, fun ⟨told, huses⟩ => Kind.not_uses_of_fails hfails huses⟩
    · exact .inr ⟨huses, fun ⟨fault, hfails⟩ => huses.elim fun _ => Kind.not_uses_of_fails hfails⟩
  · rw [Services.withLanguage_interpreter, handle]

/-- A language in which every script returns new data, and metadata that goes wrong at its second entry. -/
def halfway : Script.Language := fun _ _ =>
  .ok "\x7b\"msg\":true,\"metadata\":\x7b\"a\":\"b\",\"c\":null\x7d\x7d"

open ScriptedNode in
theorem run_scripted_halfway :
    Fails .transform (halfway.evaluate default "return msg;") (.badMetadata (.mismatch .null .string)) ∧
      ∃ sent, (default : Message).Reports sent
          "脚本执行失败: metadata 必须是字符串映射: invalid type: null, expected a string" ∧
        ∀ deliver j, ((Kind.transform.component ⟨"return msg;"⟩).handleOver
          (Services.world.withLanguage halfway) ⟨"rc1", "make", "transform", .empty⟩ default).run deliver j =
            Plan.tellAll deliver [(failureLabel, sent)] j := by
  have hresult : halfway.evaluate default "return msg;" = .ok (.object
      [("metadata", .object [("a", .string "b"), ("c", .null)]), ("msg", .bool true)]) := rfl
  have hfails :
      Fails .transform (halfway.evaluate default "return msg;") (.badMetadata (.mismatch .null .string)) := by
    have hmetadata : Entries.get? "metadata"
        [("metadata", Json.Value.object [("a", .string "b"), ("c", .null)]), ("msg", .bool true)] =
          some (.object (Json.textMembers [("a", "b")] ++ [("c", .null)])) := rfl
    rw [hresult]
    exact .notText rfl hmetadata nofun
  exact ⟨hfails, (run_scripted Services.world halfway .transform ⟨"return msg;"⟩ _ default).1 _ hfails⟩

end Component

end RuleFlow
