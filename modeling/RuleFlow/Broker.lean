import RuleFlow.Error
import RuleFlow.Subject

/-!
# The message broker

A `Broker` passes what is published under a subject to every subscription whose pattern matches it. A
subscription has a number and queues what it gets until it is received. When the broker closes, its
subscriptions keep what they have and get nothing more.
-/

namespace RuleFlow

/-- A subscription and what it has not received yet. -/
structure Subscription where
  number : Nat
  pattern : String
  queue : List (List UInt8) := []
  deriving DecidableEq

/-- A broker and its subscriptions. -/
structure Broker where
  isOpen : Bool := true
  nextNumber : Nat := 0
  subscriptions : List Subscription := []

namespace Subscription

/-- Whether a subscription gets what is published under a subject. -/
def wants (subject : String) (s : Subscription) : Bool := Subject.isMatch s.pattern subject

/-- Puts something at the end of the queue if the subscription wants it. -/
def offer (subject : String) (payload : List UInt8) (s : Subscription) : Subscription :=
  if s.wants subject then { s with queue := s.queue ++ [payload] } else s

end Subscription

namespace Broker

/-- The subscription with a number. -/
def get? (b : Broker) (number : Nat) : Option Subscription :=
  b.subscriptions.find? (·.number = number)

/-- Adds a subscription and gives its number. -/
def subscribe (pattern : String) (b : Broker) : Result (Nat × Broker) :=
  if ¬b.isOpen then .error .noBroker
  else if pattern = "" then .error .noTopic
  else
    .ok (b.nextNumber,
      { b with
        nextNumber := b.nextNumber + 1
        subscriptions := b.subscriptions ++ [⟨b.nextNumber, pattern, []⟩] })

/-- Removes a subscription. -/
def unsubscribe (number : Nat) (b : Broker) : Broker :=
  { b with subscriptions := b.subscriptions.filter (·.number ≠ number) }

/-- Passes something on to all subscriptions that want it; says how many these are. -/
def publish (subject : String) (payload : List UInt8) (b : Broker) : Result (Nat × Broker) :=
  if ¬b.isOpen then .error .noBroker
  else
    .ok ((b.subscriptions.filter (·.wants subject)).length,
      { b with subscriptions := b.subscriptions.map (·.offer subject payload) })

/-- Changes the subscription with a number. -/
def modify (number : Nat) (f : Subscription → Subscription) (b : Broker) : Broker :=
  { b with subscriptions := b.subscriptions.map fun s => if s.number = number then f s else s }

/-- Takes what a subscription has queued longest. -/
def receive (number : Nat) (b : Broker) : Option (List UInt8) × Broker :=
  match (b.get? number).map (·.queue) with
  | some (payload :: rest) => (some payload, b.modify number fun s => { s with queue := rest })
  | _ => (none, b)

/-- Takes all that a subscription has queued. -/
def drain (number : Nat) (b : Broker) : List (List UInt8) × Broker :=
  (((b.get? number).map (·.queue)).getD [], b.modify number fun s => { s with queue := [] })

/-- Closes the broker. -/
def close (b : Broker) : Broker := { b with isOpen := false }

end Broker

end RuleFlow
