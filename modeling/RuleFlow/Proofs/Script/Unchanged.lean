import RuleFlow.Proofs.Script.Heap
import RuleFlow.Proofs.Script.Splice

/-!
# Scripts that leave a message as it is

Data without numbers goes through a script unharmed: what it becomes in the heap is written as a text that is
read as the data (`readResult_of_stands`). So a transformation that returns all three parts of a message under
their names leaves it unchanged (`evaluateTransform_wholeScript`).

A transformation that returns the data alone does not always do so. A result is taken apart if it is an object
with a member `msg`, and this may be the data itself, which a device has sent. The message is unchanged exactly if
its data is not such an object (`evaluateTransform_dataScript_iff`).
-/

namespace RuleFlow.Script

theorem resultText_of_textOf {heap : Heap} {w : Val} {text : String} (hw : w ≠ .undefined)
    (h : textOf heap (heap.size + 1) [] w = .ok (some text)) : resultText heap w = .ok text := by
  rw [resultText, h]
  · rfl
  · exact hw

/-- What stands for a value without numbers is read as this value when it is returned. -/
theorem readResult_of_stands {key : String → Prop} {heap : Heap} {v : Json.Value} {w : Val}
    (h : Stands heap heap.size v w) (hv : v.Numberless key Json.maxDepth) :
    (do readResult (← resultText heap w)) = .ok v := by
  obtain ⟨written, htext, hreads⟩ :=
    exists_textOf_of_stands h hv (Nat.le_succ heap.size) fun _ ha => absurd ha List.not_mem_nil
  have hw : w ≠ .undefined := by
    rintro rfl
    cases h
  have hparse : Json.parse (Json.bytesOf written.render) = .ok v := Json.parse_of_readsAs hreads
  simp only [resultText_of_textOf hw htext, bind, Except.bind, readResult, hparse]

theorem data_of_withMetadata {m m' : Message} {v : Option Json.Value} (h : withMetadata m v = .ok m') :
    m'.data = m.data := by
  unfold withMetadata at h
  split at h
  · cases h
    rfl
  · split at h
    · cases h
      rfl
    · cases h

/-- The data under `msg` becomes the data of the message. -/
theorem data_of_transformResult {m m' : Message} {ms : Json.Members} {data : Json.Value}
    (hdata : Entries.get? "msg" ms = some data) (h : transformResult m (.object ms) = .ok m') : m'.data = data := by
  simp only [transformResult, hdata] at h
  obtain ⟨n, hmetadata, htype⟩ := bind_eq_ok_iff.1 h
  have hkept : n.data = data := data_of_withMetadata hmetadata
  split at htype
  · cases htype
    exact hkept
  · cases htype
    exact hkept

/-- The heap that a script starts with. -/
def startHeap (m : Message) : Heap := (load (Message.metadataToJson m.metadata) (load m.data #[]).2).2

/-- The parameters of a script. -/
def parametersOf (m : Message) : List (String × Val) :=
  [("msg", (load m.data #[]).1), ("metadata", (load (Message.metadataToJson m.metadata) (load m.data #[]).2).1),
    ("msgType", .text (units m.type))]

section

variable {key : String → Prop} {m : Message} {depth : Nat} (hkey : ∀ k, key k → k ≠ "__proto__")
  (hdata : m.data.Numberless key depth)

/-- A script that returns what stands for a value evaluates to the value. -/
theorem evaluate_of_stands {script : String} {body : List Stmt} {heap : Heap} {v : Json.Value} {w : Val}
    (hscript : Stmt.ofScript script = .ok body)
    (hrun : runBody body (parametersOf m) (startHeap m) = .ok (w, heap)) (h : Stands heap heap.size v w)
    (hv : v.Numberless key Json.maxDepth) : interpreter.evaluate m script = .ok v := by
  have hresult := readResult_of_stands h hv
  simp only [parametersOf, startHeap] at hrun
  simp only [Language.evaluate, interpreter, hscript]
  rw [hrun]
  exact hresult

include hkey hdata

/-- At the start of a script the data stand in the heap. -/
theorem stands_data : Stands (startHeap m) (startHeap m).size m.data (load m.data #[]).1 := by
  have hgrows : Grows (load m.data #[]).2 (startHeap m) := grows_load _ _
  exact (stands_load hkey hdata #[]).mono hgrows hgrows.size_le

end

/-! ## The data alone -/

/-- The script that returns the data. -/
def dataScript : String := "return msg;"

theorem ofScript_dataScript : Stmt.ofScript dataScript = .ok [.result (some (.name "msg"))] := by
  have hscan : Token.scan dataScript = .ok [.word "return", .word "msg", .sign ";", .ending] := by rfl
  rw [Stmt.ofScript, hscan]
  rfl

/-- The script that returns the data evaluates to the data. -/
theorem evaluate_dataScript {m : Message} (hdata : m.data.Numberless (· ≠ "__proto__") Json.maxDepth) :
    interpreter.evaluate m dataScript = .ok m.data :=
  evaluate_of_stands ofScript_dataScript rfl (stands_data (fun _ hk => hk) hdata) hdata

/-- The data counts as the result of the script, and is taken apart like any result. -/
theorem evaluateTransform_dataScript {m : Message} (hdata : m.data.Numberless (· ≠ "__proto__") Json.maxDepth) :
    evaluateTransform m dataScript = transformResult m m.data := by
  rw [evaluateTransform, Language.evaluateTransform, evaluate_dataScript hdata]
  rfl

/-- Returning the data leaves a message unchanged exactly if the data is not an object with a member `msg`. -/
theorem evaluateTransform_dataScript_iff {m : Message} (hdata : m.data.Numberless (· ≠ "__proto__") 100) :
    evaluateTransform m dataScript = .ok m ↔ ∀ ms, m.data = .object ms → Entries.get? "msg" ms = none := by
  rw [evaluateTransform_dataScript (hdata.mono (by decide))]
  refine ⟨fun h ms hms => ?_, fun h => ScriptedNode.transformResult_of_bare m h⟩
  rw [hms] at h
  match hget : Entries.get? "msg" ms with
  | none => rfl
  | some data =>
    -- The member would have become the data, which contains it.
    have hsame : m.data = data := data_of_transformResult hget h
    exact absurd hms (hsame ▸ Json.Value.ne_object_of_mem (Entries.mem_of_get? hget))

/-- A message whose data has a member `msg`, but not at the top. -/
def nested : Message := ⟨⟨1⟩, "telemetry", .empty, .array [.object [("msg", .null)]], 0⟩

theorem evaluateTransform_dataScript_nested :
    nested.data.Numberless (· ≠ "__proto__") 100 ∧ evaluateTransform nested dataScript = .ok nested := by
  have hdata : nested.data.Numberless (· ≠ "__proto__") 100 := by
    refine .array ?_
    simp only [List.forall_mem_singleton]
    refine .object (by decide) (by decide) ?_
    simp only [List.forall_mem_singleton]
    exact .null 98
  exact ⟨hdata, (evaluateTransform_dataScript_iff hdata).2 nofun⟩

/-- A message whose data is an object with a member `msg`. -/
def lookalike : Message := ⟨⟨1⟩, "telemetry", .empty, .object [("msg", .null)], 0⟩

theorem numberless_lookalike : lookalike.data.Numberless (· ≠ "__proto__") 100 := by
  refine .object (by decide) (by decide) ?_
  simp only [List.forall_mem_singleton]
  exact .null 99

/-- The message loses its data to the member. -/
theorem evaluateTransform_dataScript_lookalike :
    lookalike.data.Numberless (· ≠ "__proto__") 100 ∧
      evaluateTransform lookalike dataScript = .ok { lookalike with data := .null } ∧
      evaluateTransform lookalike dataScript ≠ .ok lookalike := by
  have hvalue : evaluateTransform lookalike dataScript = .ok { lookalike with data := .null } :=
    evaluateTransform_dataScript (numberless_lookalike.mono (by decide))
  refine ⟨numberless_lookalike, hvalue, ?_⟩
  rw [hvalue]
  decide

/-! ## The whole message -/

/-- The script that returns all parts of a message under their names. -/
def wholeScript : String := "return \x7bmsg: msg, metadata: metadata, msgType: msgType\x7d;"

/-- The JSON value that the script returns. -/
def wholeResult (m : Message) : Json.Value :=
  .object [("metadata", Message.metadataToJson m.metadata), ("msg", m.data), ("msgType", .string m.type)]

theorem ofScript_wholeScript : Stmt.ofScript wholeScript = .ok [.result (some (.object [(units "msg", .name "msg"),
    (units "metadata", .name "metadata"), (units "msgType", .name "msgType")]))] := by
  have hscan : Token.scan wholeScript = .ok [.word "return", .sign "\x7b", .word "msg", .sign ":", .word "msg",
      .sign ",", .word "metadata", .sign ":", .word "metadata", .sign ",", .word "msgType", .sign ":",
      .word "msgType", .sign "\x7d", .sign ";", .ending] := by rfl
  rw [Stmt.ofScript, hscan]
  rfl

/-- Metadata hold texts only, so nothing in them is rounded. -/
theorem numberless_metadata {m : Message} (hmetadata : "__proto__" ∉ m.metadata.keys) (depth : Nat) :
    (Message.metadataToJson m.metadata).Numberless (· ≠ "__proto__") (depth + 1) :=
  Message.numberless_metadataToJson (fun _ hk => ne_of_mem_of_not_mem hk hmetadata) depth

section

variable {m : Message} (hdata : m.data.Numberless (· ≠ "__proto__") 100) (hmetadata : "__proto__" ∉ m.metadata.keys)
include hdata hmetadata

/-- A whole message holds no numbers if its data do not. -/
theorem numberless_wholeResult : (wholeResult m).Numberless (· ≠ "__proto__") 101 := by
  refine .object ?_ ?_ ?_
  · simp only [Entries.Sorted, List.pairwise_cons, List.forall_mem_cons]
    decide
  · simp only [List.forall_mem_cons]
    decide
  · simp only [List.forall_mem_cons]
    exact ⟨numberless_metadata hmetadata 99, hdata, .string 100 m.type, by simp⟩

/-- The script that returns the whole message evaluates to it. -/
theorem evaluate_wholeScript : interpreter.evaluate m wholeScript = .ok (wholeResult m) := by
  let parts : List (String × Json.Value × Val) := [("msg", m.data, (load m.data #[]).1),
    ("metadata", Message.metadataToJson m.metadata,
      (load (Message.metadataToJson m.metadata) (load m.data #[]).2).1),
    ("msgType", .string m.type, .text (units m.type))]
  have hparts : ∀ p ∈ parts, Stands (startHeap m) (startHeap m).size p.2.1 p.2.2 := by
    simp only [parts, List.forall_mem_cons]
    exact ⟨stands_data (fun _ hk => hk) hdata, stands_load (fun _ hk => hk) (numberless_metadata hmetadata 0) _,
      .string _ m.type, by simp⟩
  have hrun : runBody [.result (some (.object [(units "msg", .name "msg"), (units "metadata", .name "metadata"),
      (units "msgType", .name "msgType")]))] (parametersOf m) (startHeap m) = .ok (.object (startHeap m).size,
        (startHeap m).push (.plain none (parts.map fun p => (units p.1, p.2.2)))) := rfl
  refine evaluate_of_stands ofScript_wholeScript hrun ?_ ((numberless_wholeResult hdata hmetadata).mono (by decide))
  -- The script names the data first, but a result has its members in the order of their keys.
  have hmembers : (parts.map fun p => (p.1, p.2.1)).Perm [("metadata", Message.metadataToJson m.metadata),
      ("msg", m.data), ("msgType", .string m.type)] := .swap ..
  refine .object ?_ ?_ hmembers fun p hp => (hparts p hp).mono (.push _ _) (Nat.le_refl _)
  · simp
  · simp

/-- Returning all parts of a message leaves it unchanged. -/
theorem evaluateTransform_wholeScript :
    evaluateTransform m wholeScript = .ok m ∧ splicing.evaluateTransform m wholeScript = .ok m := by
  have hbrings : ScriptedNode.Brings m [("metadata", Message.metadataToJson m.metadata), ("msg", m.data),
      ("msgType", .string m.type)] (.ofList m.metadata.entries) := .some rfl
  have hresult : transformResult m (wholeResult m) = .ok m := by
    rw [Table.ofList_entries] at hbrings
    exact ScriptedNode.transformResult_of_message rfl hbrings (.some rfl)
  have hvalue : evaluateTransform m wholeScript = .ok m := by
    rw [evaluateTransform, Language.evaluateTransform, evaluate_wholeScript hdata hmetadata]
    exact hresult
  refine ⟨hvalue, ?_⟩
  rw [Language.evaluateTransform, splicing_evaluate hdata]
  exact hvalue

end

/-- A message with texts that JSON or scripts treat in a way of their own, and with data that looks like a result. -/
def awkward : Message where
  id := ⟨7⟩
  type := "\"\\\u2028"
  metadata := .ofList [("10", "\t\x01"), ("9", "'*/"), ("msg", "\x7f😀")]
  data := .object [("", .null), ("10", .array [.bool true, .string "\r\n\u2029"]), ("9", .array []),
    ("msg", .object [("metadata", .string "\x7b"), ("msg", .bool false)])]
  timestamp := -5

theorem evaluateTransform_wholeScript_awkward :
    awkward.data.Numberless (· ≠ "__proto__") 100 ∧ "__proto__" ∉ awkward.metadata.keys ∧
      evaluateTransform awkward wholeScript = .ok awkward ∧
      splicing.evaluateTransform awkward wholeScript = .ok awkward := by
  have hlist : Json.Value.Numberless (· ≠ "__proto__") 99 (.array [.bool true, .string "\r\n\u2029"]) := by
    refine .array ?_
    simp only [List.forall_mem_cons]
    exact ⟨.bool 98 true, .string 98 _, by simp⟩
  have hnone : Json.Value.Numberless (· ≠ "__proto__") 99 (.array []) := .array (by simp)
  have hobject : Json.Value.Numberless (· ≠ "__proto__") 99
      (.object [("metadata", .string "\x7b"), ("msg", .bool false)]) := by
    refine .object (by decide) (by decide) ?_
    simp only [List.forall_mem_cons]
    exact ⟨.string 98 _, .bool 98 false, by simp⟩
  have hdata : awkward.data.Numberless (· ≠ "__proto__") 100 := by
    refine .object (by decide) (by decide) ?_
    simp only [List.forall_mem_cons]
    exact ⟨.null 99, hlist, hnone, hobject, by simp⟩
  have hmetadata : "__proto__" ∉ awkward.metadata.keys := by decide
  exact ⟨hdata, hmetadata, evaluateTransform_wholeScript hdata hmetadata⟩

end RuleFlow.Script
