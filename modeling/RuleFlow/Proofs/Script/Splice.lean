import RuleFlow.Proofs.Script.Scan
import RuleFlow.Proofs.Scripted

/-!
# Messages as parts of a program

A script is the body of a function. The function is called with the parts of the message, which stand in the
program as JSON texts: this language is `Script.splicing`. The interpreter puts the parts into the heap instead
of writing them into the program and reading them again. For messages whose data has no numbers it makes no
difference, whatever the script is (`Script.splicing_eq_interpreter`).
-/

namespace RuleFlow

theorem Message.numberless_metadataToJson {key : String → Prop} {metadata : Table String}
    (h : ∀ k ∈ metadata.keys, key k) (depth : Nat) : (metadataToJson metadata).Numberless key (depth + 1) := by
  refine .object (Entries.sorted_map _ metadata.sorted) (fun m hm => ?_) fun m hm => ?_
  · obtain ⟨e, he, rfl⟩ := List.mem_map.1 hm
    exact h _ (List.mem_map_of_mem he)
  · obtain ⟨e, -, rfl⟩ := List.mem_map.1 hm
    exact .string depth e.2

namespace Script

/-- The arguments of the function as they stand in the program, after the opening parenthesis. -/
def argumentText (m : Message) : String :=
  m.data.render ++ ", " ++ (Message.metadataToJson m.metadata).render ++ ", " ++ Json.quote m.type ++ ")"

/-- The arguments of the function. -/
def argumentsOf (m : Message) : Except String (List Expr) := do
  let ts ← Token.scan (argumentText m)
  let (es, rest) ← Parse.items (16 * ts.length + 16) ")" ts
  if Parse.atFinish rest then .ok es else Parse.unexpected rest

/-- The text that a script returns in a program that has the parts of the message as literals. -/
def splicing : Language := fun m script =>
  match Stmt.ofScript script with
  | .error e => .error (.raised e)
  | .ok body =>
    match argumentsOf m with
    | .error e => .error (.raised e)
    | .ok es => do
      let (vs, st) ← evalAll es ⟨#[], []⟩
      let (v, heap) ← runBody body (["msg", "metadata", "msgType"].zip vs) st.heap
      resultText heap v

/-- The end of a program. -/
def Token.ending : Token := ⟨.finish, "\x7d", true⟩

open Token in
/-- The arguments of a call are scanned up to its end. -/
theorem scan_of_scans {text : String} {cs : List Char} {ts : List Token} (h : Scans cs ts)
    (htext : text.toList = cs ++ [')']) : scan text = .ok (ts ++ [.sign ")", .ending]) := by
  have hlength := h.length_le
  have hchars : text.length = cs.length + 1 := by
    rw [← String.length_toList, htext, List.length_append, List.length_singleton]
  obtain ⟨fuel, hfuel⟩ := Nat.exists_eq_add_of_le (show ts.length + 2 ≤ text.length + 1 by omega)
  have hlast : scanAll (fuel + 2) [')'] = .ok [.sign ")", .ending] := by
    rw [scanAll_sign (s := ")") (by simp [signs])]
    rfl
  have hall := h.scanAll (fuel + 2) [')'] ⟨')', by simp, [], rfl⟩
  rw [hlast] at hall
  rw [scan, htext, hfuel, Nat.add_assoc, Nat.add_comm, Nat.add_comm 2]
  exact hall

/-- The arguments of a call are read as the literals that were spliced in. -/
theorem argumentsOf_of_literal {m : Message} {ts us : List Token} {e f : Expr} (hdata : Literal m.data ts e)
    (hmetadata : Literal (Message.metadataToJson m.metadata) us f) :
    argumentsOf m = .ok [e, f, .constant (.text (units m.type))] := by
  have hparts : ∀ p ∈ [(m.data, ts, e), (Message.metadataToJson m.metadata, us, f),
      (.string m.type, [.quoted m.type], .constant (.text (units m.type)))],
      Literal p.1 p.2.1 p.2.2 ∧ Parse.ReadAs p.2.1 p.2.2 := by
    have htype := Literal.string m.type
    simp only [List.forall_mem_cons]
    exact ⟨⟨hdata, hdata.readAs⟩, ⟨hmetadata, hmetadata.readAs⟩, ⟨htype, htype.readAs⟩, by simp⟩
  have hscans := hdata.scans.comma (hmetadata.scans.comma (Token.scans_quote m.type).blank).blank
  have htext : (argumentText m).toList = m.data.render.toList ++ ',' :: ' ' ::
      ((Message.metadataToJson m.metadata).render.toList ++ ',' :: ' ' :: (Json.quote m.type).toList) ++ [')'] := by
    simp [argumentText]
  have hscan : Token.scan (argumentText m) =
      .ok (separated [ts, us, [.quoted m.type]] ++ [.sign ")", .ending]) := scan_of_scans hscans htext
  have hfuel : 8 * (separated [ts, us, [.quoted m.type]]).length <
      16 * (separated [ts, us, [.quoted m.type]] ++ [Token.sign ")", Token.ending]).length + 16 := by
    rw [List.length_append]
    omega
  have hitems : Parse.items _ ")" (separated [ts, us, [.quoted m.type]] ++ [.sign ")", .ending]) =
      .ok ([e, f, .constant (.text (units m.type))], [.ending]) :=
    items_separated (.inr rfl) hparts hfuel [.ending]
  rw [argumentsOf, hscan]
  exact bind_eq_ok_iff.2 ⟨_, rfl, bind_eq_ok_iff.2 ⟨_, hitems, rfl⟩⟩

/-- The arguments evaluate to what the interpreter puts into the heap. -/
theorem evalAll_arguments {v w : Json.Value} {ts us : List Token} {e f : Expr} (hv : Literal v ts e)
    (hw : Literal w us f) (type : String) :
    evalAll [e, f, .constant (.text (units type))] ⟨#[], []⟩ =
      .ok ([(load v #[]).1, (load w (load v #[]).2).1, .text (units type)], ⟨(load w (load v #[]).2).2, []⟩) := by
  have hparts : ∀ p ∈ [(v, ts, e), (w, us, f), (.string type, [.quoted type], .constant (.text (units type)))],
      p.2.2.Loads p.1 := by
    simp only [List.forall_mem_cons]
    exact ⟨hv.loads, hw.loads, (Literal.string type).loads, by simp⟩
  exact evalAll_of_loads hparts ⟨#[], []⟩

/-- It makes no difference whether the parts of a message are written into the program or put into the heap. -/
theorem splicing_eq_interpreter {key : String → Prop} {depth : Nat} {m : Message}
    (hdata : m.data.Numberless key depth) (script : String) : splicing m script = interpreter m script := by
  have hkeys : ∀ k ∈ m.metadata.keys, (fun _ => True) k := fun _ _ => trivial
  obtain ⟨ts, e, hliteral⟩ := exists_literal hdata
  obtain ⟨us, f, hmetadata⟩ := exists_literal (Message.numberless_metadataToJson hkeys 0)
  simp only [splicing, interpreter, argumentsOf_of_literal hliteral hmetadata]
  cases Stmt.ofScript script with
  | error e => rfl
  | ok body =>
    rw [evalAll_arguments hliteral hmetadata]
    rfl

/-- Splicing the message into the text and loading it into the heap come to the same. -/
theorem splicing_evaluate {key : String → Prop} {depth : Nat} {m : Message} (hdata : m.data.Numberless key depth)
    (script : String) : splicing.evaluate m script = interpreter.evaluate m script := by
  rw [Language.evaluate, splicing_eq_interpreter hdata, Language.evaluate]

end Script

end RuleFlow
