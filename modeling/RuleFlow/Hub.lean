import RuleFlow.Broker
import RuleFlow.Service

/-!
# Services that listen to a broker

A `Hub` is a service together with a broker and with the subscriptions through which the service listens to
it. What such a subscription gets is decoded; what cannot be decoded and what comes from the channel of the
service itself is dropped, all else is delivered (`Service.accept`).
-/

namespace RuleFlow

namespace Occasion

/-- The same circumstances with another unused id for a message. -/
def next (o : Occasion) : Occasion := { o with freshUuid := ⟨o.freshUuid.value + 1⟩ }

end Occasion

namespace Service

variable {ω η : Type}

/-- The envelope that a service delivers when it gets some bytes, if any. -/
def incoming (settings : Settings) (raw : List UInt8) : Option Envelope :=
  match Envelope.decode raw with
  | .ok e => if e.channel = settings.selfChannel then none else some e
  | .error _ => none

/-- Delivers what a subscription got. -/
def accept (o : Occasion) (k : Catalogue ω η) (raw : List UInt8) (s : Service ω η) : Service ω η :=
  match incoming s.settings raw with
  | some e => (s.deliver o e k).2
  | none => s

/-- Delivers several things that a subscription got, one after the other. -/
def acceptAll (k : Catalogue ω η) : Occasion → List (List UInt8) → Service ω η → Service ω η
  | _, [], s => s
  | o, raw :: raws, s => acceptAll k o.next raws (s.accept o k raw)

end Service

/-- A service, a broker and the numbers of the subscriptions through which the service listens, the newest
first. -/
structure Hub (ω η : Type) where
  service : Service ω η
  broker : Broker := {}
  subscribers : List Nat := []

namespace Hub

variable {ω η : Type}

/-- Lets the service listen to a topic. -/
def listen (topic : String) (h : Hub ω η) : Result (Hub ω η) := do
  let (number, broker) ← h.broker.subscribe topic
  return { h with broker, subscribers := number :: h.subscribers }

/-- Ends the subscription through which the service listens that is the newest; says whether there was one. -/
def unlisten (h : Hub ω η) : Bool × Hub ω η :=
  match h.subscribers with
  | [] => (false, h)
  | number :: rest => (true, { h with broker := h.broker.unsubscribe number, subscribers := rest })

/-- How many subscriptions the service listens through. -/
def listening (h : Hub ω η) : Nat := if h.broker.isOpen then h.subscribers.length else 0

/-- Lets the service deliver what one of its subscriptions got. -/
def deliverQueued (k : Catalogue ω η) (h : Hub ω η × Occasion) (number : Nat) : Hub ω η × Occasion :=
  let (raws, broker) := h.1.broker.drain number
  ({ h.1 with broker, service := h.1.service.acceptAll k h.2 raws },
    { h.2 with freshUuid := ⟨h.2.freshUuid.value + raws.length⟩ })

/-- Publishes something and lets the service deliver what it gets of it; says how many subscriptions there
were for it. -/
def publish (o : Occasion) (k : Catalogue ω η) (subject : String) (payload : List UInt8)
    (h : Hub ω η) : Result Nat × Hub ω η :=
  match h.broker.publish subject payload with
  | .error e => (.error e, h)
  | .ok (n, broker) =>
    (.ok n, (h.subscribers.reverse.foldl (deliverQueued k) ({ h with broker }, o)).1)

/-- Publishes an envelope under its subject. -/
def publishEnvelope (o : Occasion) (k : Catalogue ω η) (e : Envelope) (h : Hub ω η) :
    Result Nat × Hub ω η :=
  h.publish o k e.subject e.encode

end Hub

end RuleFlow
