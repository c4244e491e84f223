import RuleFlow.Error
import RuleFlow.Table
import RuleFlow.Uuid

/-!
# Reports of failed runs

A run that fails is reported once. `Failures` counts all reports, in total and by the type of the node that
failed, and queues them for a receiver. The queue is bounded: what is reported while it is full is counted
and dropped, and so is everything that is reported after the receiver has gone (`Failures.report`).
-/

namespace RuleFlow

/-- A run that ended with an error. -/
structure NodeFailure where
  chainId : String
  nodeId : String
  typeName : String
  messageId : Uuid
  reason : String
  deriving DecidableEq, Inhabited

/-- The reports of failed runs: those that wait for the receiver, and how many there were. -/
structure Failures where
  capacity : Nat
  queue : List NodeFailure := []
  isOpen : Bool := true
  total : Nat := 0
  byType : Table Nat := .empty

namespace Failures

/-- How many reports may wait; there is always room for one. -/
def room (s : Failures) : Nat := max 1 s.capacity

/-- Whether the next report is queued. -/
def accepts (s : Failures) : Bool := s.isOpen && s.queue.length < s.room

/-- Counts a report, and queues it if there is a receiver and room. -/
def report (f : NodeFailure) (s : Failures) : Failures :=
  { s with
    queue := if s.accepts then s.queue ++ [f] else s.queue
    total := s.total + 1
    byType := s.byType.insert f.typeName ((s.byType.get? f.typeName).getD 0 + 1) }

/-- Takes the report that has waited longest. -/
def receive (s : Failures) : Option NodeFailure × Failures :=
  match s.queue with
  | [] => (none, s)
  | f :: rest => (some f, { s with queue := rest })

/-- Takes all reports that wait. -/
def drain (s : Failures) : List NodeFailure × Failures := (s.queue, { s with queue := [] })

/-- The receiver goes, and with it what waits for it. -/
def close (s : Failures) : Failures := { s with isOpen := false, queue := [] }

end Failures

end RuleFlow
