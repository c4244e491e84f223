import RuleFlow.Error
import RuleFlow.Stores

/-!
# The surroundings of the nodes

What the nodes of all chains share: the stores, and an outside on which chains can be tried out. The network and
the broker of this outside are played: they give the answers that they were told to give, and keep what reached
them. The probes that were closed are listed.
-/

namespace RuleFlow

/-- What the nodes of all chains share. -/
structure World extends Stores where
  network : Http.Network := {}
  broker : Mqtt.Peer := .unreachable
  published : List Mqtt.Publication := []
  closed : List String := []

end RuleFlow
