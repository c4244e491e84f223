import RuleFlow.Json.Path
import RuleFlow.Message

/-!
# Templates

A template is text with holes `$\x7bname\x7d`. `Template.parse` cuts it into literal pieces and holes without
looking at any message; a `$\x7b` that is never closed is literal text. `Template.render` fills the holes from
a message, so that nothing that comes from the message is ever taken for a hole. Writing the pieces down
again gives the template (`write_parse`).
-/

namespace RuleFlow.Template

/-- A piece of a template. -/
inductive Segment where
  | literal (text : List Char)
  | hole (name : List Char)
  deriving DecidableEq

mutual

/-- Cuts text outside a hole; `text` holds the literal so far, last character first. -/
def outside (text : List Char) : List Char → List Segment
  | [] => if text.isEmpty then [] else [.literal text.reverse]
  | '$' :: '{' :: rest =>
    if '}' ∈ rest then
      if text.isEmpty then inside [] rest else .literal text.reverse :: inside [] rest
    else [.literal (text.reverse ++ '$' :: '{' :: rest)]
  | c :: rest => outside (c :: text) rest

/-- Cuts text inside a hole; `name` holds the name so far, last character first. -/
def inside (name : List Char) : List Char → List Segment
  | [] => [.hole name.reverse]
  | '}' :: rest => .hole name.reverse :: outside [] rest
  | c :: rest => inside (c :: name) rest

end

/-- The pieces of a template. -/
def parse (template : String) : List Segment := outside [] template.toList

/-- A piece as it stands in a template. -/
def Segment.write : Segment → List Char
  | .literal text => text
  | .hole name => '$' :: '{' :: name ++ ['}']

/-- What a hole stands for in a message; an unknown name stands for nothing. -/
def fill (m : Message) (name : List Char) : String :=
  match String.ofList name with
  | "msgId" => m.id.render
  | "msgType" => m.type
  | "msg" => m.data.render
  | _ =>
    match Text.after? "msg.".toList name, Text.after? "metadata.".toList name with
    | some path, _ => ((m.data.at? path).map Json.Value.plain).getD ""
    | none, some key => (m.metadata.get? (String.ofList key)).getD ""
    | none, none => ""

/-- A piece filled from a message. -/
def Segment.render (m : Message) : Segment → String
  | .literal text => String.ofList text
  | .hole name => fill m name

/-- A template filled from a message. -/
def render (template : String) (m : Message) : String :=
  ((parse template).map (Segment.render m)).foldl (· ++ ·) ""

mutual

/-- The pieces outside a hole are written as the text was. -/
theorem write_outside (text cs : List Char) :
    ((outside text cs).flatMap Segment.write) = text.reverse ++ cs := by
  unfold outside
  split
  · cases text with
    | nil => simp
    | cons c cs => simp [Segment.write]
  · rename_i rest
    split
    · rename_i hmem
      have h := write_inside [] rest hmem
      cases text with
      | nil => simpa using h
      | cons a as =>
        simp only [List.isEmpty_cons, Bool.false_eq_true, if_false, List.flatMap_cons, h]
        simp [Segment.write]
    · simp [Segment.write]
  · rename_i c rest _
    rw [write_outside (c :: text) rest]
    simp
termination_by cs.length

/-- The pieces from inside a hole on are written as the text was. -/
theorem write_inside (name cs : List Char) (h : '}' ∈ cs) :
    ((inside name cs).flatMap Segment.write) = '$' :: '{' :: (name.reverse ++ cs) := by
  unfold inside
  split
  · simp at h
  · rename_i rest
    simp only [List.flatMap_cons, write_outside [] rest, Segment.write]
    simp
  · rename_i c rest hc
    have hm : '}' ∈ rest := by
      rcases List.mem_cons.1 h with h | h
      · exact absurd h.symm hc
      · exact h
    rw [write_inside (c :: name) rest hm]
    simp
termination_by cs.length

end

/-- The pieces of a template are written as the template was. -/
theorem write_parse (template : String) :
    ((parse template).flatMap Segment.write) = template.toList := by
  simpa [parse] using write_outside [] template.toList

end RuleFlow.Template
