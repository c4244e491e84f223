import RuleFlow.Hub
import RuleFlow.Proofs.Broker
import RuleFlow.Proofs.Envelope
import RuleFlow.Proofs.Instances
import RuleFlow.Proofs.Subject
import RuleFlow.Proofs.Traversal.Entrance

/-!
# What a listening service starts

A service that listens to all channels through one subscription gets every envelope that is published, in the
order of publication (`Hub.Hears`). What an envelope asks for is said without subjects, bytes and queues:
`Service.startedBy` lists one traversal for each running graph that listens exactly where the envelope was
sent. The way through the broker starts the same traversals (`Service.accept_encode`), whether each envelope is
dealt with at once (`Hub.Hears.publishAll`) or some wait while others are published (`Hub.Hears.turns`).
-/

namespace RuleFlow

variable {ω η : Type}

/-- The message of an envelope with the given data. -/
def Envelope.messageOf (o : Occasion) (e : Envelope) (data : Json.Value) : Message where
  id := o.freshUuid
  type := "telemetry"
  metadata := .ofList (("channel", e.channel) :: ("sub_topic", e.subTopic) ::
    if e.publisher = "" then [] else [("publisher", e.publisher)])
  data := data
  timestamp := if 0 < e.created then e.created else o.now

/-- Where a message comes from, as a table: channel, sub-topic and publisher, if there is one. -/
theorem Envelope.origin_eq_ofList (e : Envelope) :
    e.origin = .ofList (("channel", e.channel) :: ("sub_topic", e.subTopic) ::
      if e.publisher = "" then [] else [("publisher", e.publisher)]) := by
  unfold origin
  split <;> rfl

namespace Service

/-- The traversals that an envelope asks for in given circumstances: if it names a channel, not that of the
service itself, and carries JSON, one for each running graph that listens exactly where it was sent. -/
def startedBy (s : Service ω η) (sent : Occasion × Envelope) : List (Traversal η) :=
  if sent.2.channel = "" ∨ sent.2.channel = s.settings.selfChannel then []
  else
    match Json.parse sent.2.payload with
    | .error _ => []
    | .ok data =>
      (s.engine.instances.running.values.filter fun i =>
        i.channel = sent.2.channel ∧ i.subTopic = sent.2.subTopic).map
          (⟨·, sent.2.messageOf sent.1 data⟩)

/-- A service after some traversals. -/
def ran (k : Catalogue ω η) (ts : List (Traversal η)) (s : Service ω η) : Service ω η :=
  { s with engine := s.engine.traverseAll k ts }

variable (k : Catalogue ω η) (s : Service ω η)

@[simp] theorem ran_nil : s.ran k [] = s := rfl

theorem ran_append (ts us : List (Traversal η)) : s.ran k (ts ++ us) = (s.ran k ts).ran k us := by
  simp [ran, Engine.traverseAll]

@[simp] theorem startedBy_ran (ts : List (Traversal η)) : (s.ran k ts).startedBy = s.startedBy := by
  funext sent
  simp [startedBy, ran]

/-- What a subscription gets of an envelope starts what the envelope asks for. -/
theorem accept_encode (o : Occasion) {e : Envelope} (he : e.Timed) :
    s.accept o k e.encode = s.ran k (s.startedBy (o, e)) := by
  by_cases hchannel : e.channel = ""
  · have hdecode := Envelope.decode_encode_of_eq he hchannel
    simp [accept, incoming, hdecode, startedBy, hchannel]
  · have hdecode := Envelope.decode_encode he hchannel
    by_cases hself : e.channel = s.settings.selfChannel
    · simp [accept, incoming, hdecode, startedBy, hself]
    · have hincoming : incoming s.settings e.encode = some e := by
        simp only [incoming, hdecode, if_neg hself]
      simp only [accept, hincoming, deliver, startedBy, hchannel, hself, or_self, if_false,
        Envelope.toMessage]
      cases Json.parse e.payload with
      | error fault => rfl
      | ok data =>
        simp only [Envelope.origin_eq_ofList, Engine.dispatch, Engine.listeners, Instances.matching]
        simp [ran, Envelope.messageOf, Instance.listensTo]

end Service

/-! ## A subscription -/

namespace Hub

/-- A service listens through exactly one subscription, to all channels, with some bytes still queued. The
broker may have other subscriptions. -/
structure Hears (h : Hub ω η) (number : Nat) (queue : List (List UInt8)) : Prop where
  isOpen : h.broker.isOpen = true
  subscribers : h.subscribers = [number]
  subscription : h.broker.get? number = some ⟨number, "channels.>", queue⟩

/-- A service that starts to listen to all channels hears them. -/
theorem hears_listen {h h' : Hub ω η} (hnone : h.subscribers = [])
    (hfresh : h.broker.get? h.broker.nextNumber = none) (hlisten : h.listen "channels.>" = .ok h') :
    h'.Hears h.broker.nextNumber [] ∧ h'.service = h.service := by
  obtain ⟨⟨number, broker⟩, hsubscribe, hlisten⟩ := bind_eq_ok_iff.1 hlisten
  obtain rfl := Except.ok.inj hlisten
  unfold Broker.subscribe at hsubscribe
  split at hsubscribe
  · cases hsubscribe
  · rename_i hopen
    obtain ⟨rfl, rfl⟩ := Prod.mk.inj (Except.ok.inj hsubscribe)
    refine ⟨⟨not_not.1 hopen, by rw [hnone], ?_⟩, rfl⟩
    rw [Broker.get?] at hfresh
    simp [Broker.get?, List.find?_append, hfresh]

/-- The service takes what its subscription has queued longest, if there is anything. -/
def take (o : Occasion) (k : Catalogue ω η) (number : Nat) (h : Hub ω η) : Hub ω η :=
  match h.broker.receive number with
  | (some raw, broker) => { h with broker, service := h.service.accept o k raw }
  | (none, broker) => { h with broker }

/-- An envelope is published, or the service looks for something that is queued. -/
inductive Turn where
  | publish (e : Envelope)
  | take (o : Occasion)

/-- Takes a turn. -/
def turn (k : Catalogue ω η) (number : Nat) (h : Hub ω η) : Turn → Hub ω η
  | .publish e =>
    match h.broker.publish e.subject e.encode with
    | .ok (_, broker) => { h with broker }
    | .error _ => h
  | .take o => h.take o k number

/-- Takes several turns. -/
def turns (k : Catalogue ω η) (number : Nat) (ts : List Turn) (h : Hub ω η) : Hub ω η :=
  ts.foldl (turn k number) h

/-- The envelopes that are published in some turns. -/
def published : List Turn → List Envelope
  | [] => []
  | .publish e :: ts => e :: published ts
  | .take _ :: ts => published ts

/-- The circumstances in which something was taken, if so many things were queued before. -/
def served : Nat → List Turn → List Occasion
  | _, [] => []
  | queued, .publish _ :: ts => served (queued + 1) ts
  | 0, .take _ :: ts => served 0 ts
  | queued + 1, .take o :: ts => o :: served queued ts

/-- Publishes several envelopes, each of which the service deals with before the next one. -/
def publishAll (k : Catalogue ω η) (sent : List (Occasion × Envelope)) (h : Hub ω η) : Hub ω η :=
  sent.foldl (fun h (o, e) => (h.publishEnvelope o k e).2) h

namespace Hears

variable {k : Catalogue ω η} {h : Hub ω η} {number : Nat} {queue : List (List UInt8)}

/-- What is published of an envelope is queued. -/
theorem publish (hh : h.Hears number queue) (e : Envelope) :
    ∃ n b, h.broker.publish e.subject e.encode = .ok (n, b) ∧
      { h with broker := b }.Hears number (queue ++ [e.encode]) := by
  have hpublish : h.broker.publish e.subject e.encode =
      .ok ((h.broker.subscriptions.filter (·.wants e.subject)).length,
        { h.broker with subscriptions := h.broker.subscriptions.map (·.offer e.subject e.encode) }) := by
    simp [Broker.publish, hh.isOpen]
  refine ⟨_, _, hpublish, hh.isOpen, hh.subscribers, ?_⟩
  rw [Broker.get?_publish hpublish, hh.subscription, Option.map_some, Subscription.offer,
    Subscription.wants, if_pos e.isMatch_subject]

theorem take_nil (hh : h.Hears number []) (o : Occasion) : h.take o k number = h := by
  have hreceive : h.broker.receive number = (none, h.broker) := by
    simp [Broker.receive, hh.subscription]
  rw [take, hreceive]

/-- The first message of the queue is accepted, and the others wait. -/
theorem take_cons {raw : List UInt8} (hh : h.Hears number (raw :: queue)) (o : Occasion) :
    (h.take o k number).Hears number queue ∧
      (h.take o k number).service = h.service.accept o k raw := by
  have hreceive : h.broker.receive number =
      (some raw, h.broker.modify number fun s => { s with queue := queue }) := by
    simp [Broker.receive, hh.subscription]
  have htake : h.take o k number =
      { h with
        broker := h.broker.modify number fun s => { s with queue := queue }
        service := h.service.accept o k raw } := by
    rw [take, hreceive]
  rw [htake]
  refine ⟨⟨hh.isOpen, hh.subscribers, ?_⟩, rfl⟩
  exact (Broker.get?_modify_queue ..).trans (by rw [hh.subscription, Option.map_some])

/-- An envelope that is published while nothing is queued starts what it asks for. -/
theorem publishEnvelope (hh : h.Hears number []) (o : Occasion) {e : Envelope} (he : e.Timed) :
    ∃ n h', h.publishEnvelope o k e = (.ok n, h') ∧ h'.Hears number [] ∧
      h'.service = h.service.ran k (h.service.startedBy (o, e)) := by
  obtain ⟨n, b, hpublish, hb⟩ := hh.publish e
  have hqueue : b.get? number = some ⟨number, "channels.>", [e.encode]⟩ := hb.subscription
  have hdrain : b.drain number = ([e.encode], b.modify number fun s => { s with queue := [] }) := by
    simp [Broker.drain, hqueue]
  have haccept := h.service.accept_encode k o he
  have hpublish' : h.publishEnvelope o k e =
      (.ok n, ⟨h.service.accept o k e.encode, b.modify number fun s => { s with queue := [] },
        h.subscribers⟩) := by
    simp [Hub.publishEnvelope, Hub.publish, hpublish, hh.subscribers, deliverQueued, hdrain,
      Service.acceptAll]
  rw [haccept] at hpublish'
  refine ⟨n, _, hpublish', ⟨hb.isOpen, hh.subscribers, ?_⟩, rfl⟩
  exact (Broker.get?_modify_queue ..).trans (by rw [hqueue, Option.map_some])

/-- Envelopes that are published one after the other start traversals one after the other. -/
theorem publishAll (hh : h.Hears number []) {sent : List (Occasion × Envelope)}
    (hsent : ∀ p ∈ sent, p.2.Timed) :
    (h.publishAll k sent).Hears number [] ∧
      (h.publishAll k sent).service = h.service.ran k (sent.flatMap h.service.startedBy) := by
  induction sent generalizing h with
  | nil => exact ⟨hh, rfl⟩
  | cons p sent ih =>
    obtain ⟨o, e⟩ := p
    obtain ⟨he, hsent⟩ := List.forall_mem_cons.1 hsent
    obtain ⟨n, h', hpublish, hh', hservice⟩ := hh.publishEnvelope (k := k) o he
    obtain ⟨hhears, hrest⟩ := ih hh' hsent
    have hcons : h.publishAll k ((o, e) :: sent) = h'.publishAll k sent := by
      simp [Hub.publishAll, hpublish]
    rw [hcons]
    refine ⟨hhears, ?_⟩
    rw [hrest, hservice, Service.startedBy_ran, List.flatMap_cons, Service.ran_append]

/-- Whatever the order in which envelopes are published and taken: what was taken is the beginning of what
was published and started what it asked for, and the rest is still queued. -/
theorem turns {waiting : List Envelope} (hh : h.Hears number (waiting.map (·.encode))) (ts : List Turn)
    (htimed : ∀ e ∈ waiting ++ published ts, e.Timed) :
    (h.turns k number ts).Hears number
        (((waiting ++ published ts).drop (served waiting.length ts).length).map (·.encode)) ∧
      (h.turns k number ts).service = h.service.ran k
        (((served waiting.length ts).zip (waiting ++ published ts)).flatMap h.service.startedBy) := by
  induction ts generalizing h waiting with
  | nil => exact ⟨by simpa [Hub.turns, published, served] using hh, rfl⟩
  | cons t ts ih =>
    cases t with
    | publish e =>
      obtain ⟨n, b, hpublish, hb⟩ := hh.publish e
      have hwaiting : { h with broker := b }.Hears number ((waiting ++ [e]).map Envelope.encode) := by
        rwa [List.map_append]
      have hturn : h.turn k number (.publish e) = { h with broker := b } := by
        simp only [turn, hpublish]
      have hmore := ih hwaiting (by simpa [published, or_assoc] using htimed)
      rw [List.length_append, List.append_assoc] at hmore
      rw [Hub.turns, List.foldl_cons, hturn]
      exact hmore
    | take o =>
      cases waiting with
      | nil =>
        have hturn : h.turn k number (.take o) = h := hh.take_nil o
        rw [Hub.turns, List.foldl_cons, hturn]
        exact ih hh htimed
      | cons e waiting =>
        obtain ⟨he, htimed⟩ := List.forall_mem_cons.1 htimed
        obtain ⟨hh', hservice⟩ := hh.take_cons (k := k) o
        obtain ⟨hhears, hrest⟩ := ih hh' htimed
        rw [Service.accept_encode k h.service o he] at hservice
        refine ⟨hhears, ?_⟩
        rw [List.length_cons, served, List.cons_append, List.zip_cons_cons, List.flatMap_cons,
          Service.ran_append, ← hservice, ← Service.startedBy_ran k h.service, ← hservice]
        exact hrest

end Hears

/-! ## What is started -/

/-- Only graphs that run are started. -/
theorem target_mem_of_startedBy {s : Service ω η} {sent : Occasion × Envelope} {t : Traversal η}
    (ht : t ∈ s.startedBy sent) : t.target ∈ s.engine.instances.running.values := by
  unfold Service.startedBy at ht
  split at ht
  · cases ht
  · split at ht
    · cases ht
    · obtain ⟨i, hi, rfl⟩ := List.mem_map.1 ht
      exact List.mem_of_mem_filter hi

/-- Enough looks at the end find everything that was published. -/
theorem length_served_append (queued : Nat) (ts : List Turn) {more : List Occasion}
    (hmore : queued + (published ts).length ≤ more.length) :
    (served queued (ts ++ more.map .take)).length = queued + (published ts).length := by
  induction ts generalizing queued with
  | nil =>
    induction more generalizing queued with
    | nil =>
      obtain rfl : queued = 0 := by simpa [published] using hmore
      rfl
    | cons o more ih =>
      cases queued with
      | zero => simpa [served, published] using ih 0 (Nat.zero_le _)
      | succ queued =>
        have hrest := ih queued (by simpa [published] using hmore)
        simpa [served, published] using hrest
  | cons t ts ih =>
    cases t with
    | publish e =>
      simp only [published, List.length_cons] at hmore ⊢
      rw [List.cons_append, served, ih _ (by omega)]
      omega
    | take o =>
      cases queued with
      | zero => exact ih 0 hmore
      | succ queued =>
        simp only [published] at hmore ⊢
        rw [List.cons_append, served, List.length_cons, ih _ (by omega)]
        omega

/-- A service that listens to all channels starts, for each envelope that is published and in that order, what
the envelope asks for, and nothing else; nothing but the engine changes. If the running graphs are sound, these
traversals are what enters them. This does not depend on when the service looks for what is queued: what it has
not taken stays queued, and it takes everything if it looks often enough. -/
theorem started_of_hears {k : Catalogue ω η} {h : Hub ω η} {number : Nat} (hh : h.Hears number []) :
    (∀ sent : List (Occasion × Envelope), (∀ p ∈ sent, p.2.Timed) →
      (h.publishAll k sent).service = h.service.ran k (sent.flatMap h.service.startedBy) ∧
      ((∀ i ∈ h.service.engine.instances.running.values, i.graph.Sound) →
        (h.publishAll k sent).service.engine.journey.entrances =
          h.service.engine.journey.entrances ++
            (sent.flatMap h.service.startedBy).map (·.entrance))) ∧
    ∀ ts : List Turn, (∀ e ∈ published ts, e.Timed) →
      (h.turns k number ts).service =
        h.service.ran k (((served 0 ts).zip (published ts)).flatMap h.service.startedBy) ∧
      (h.turns k number ts).Hears number
        (((published ts).drop (served 0 ts).length).map (·.encode)) ∧
      ∀ more : List Occasion, (published ts).length ≤ more.length →
        (served 0 (ts ++ more.map .take)).length = (published ts).length := by
  refine ⟨fun sent hsent => ?_, fun ts hts => ?_⟩
  · obtain ⟨-, hservice⟩ := hh.publishAll (k := k) hsent
    refine ⟨hservice, fun hsound => ?_⟩
    rw [hservice]
    refine Engine.entrances_traverseAll (fun t ht => ?_) _
    obtain ⟨p, -, hp⟩ := List.mem_flatMap.1 ht
    exact hsound _ (target_mem_of_startedBy hp)
  · have hempty : h.Hears number (([] : List Envelope).map (·.encode)) := hh
    obtain ⟨hhears, hservice⟩ := hempty.turns (k := k) ts hts
    refine ⟨hservice, hhears, fun more hmore => ?_⟩
    simpa using length_served_append 0 ts (Nat.le_trans (Nat.le_of_eq (Nat.zero_add _)) hmore)

/-- A graph that listens on a channel and sub-topic of dots and wildcards. -/
def eavesdropper (g : Graph Unit) : Instance Unit :=
  .ofChain { id := "pair", channel := "a.*", subTopic := ".>" } g

/-- A service for which one graph runs, at a broker with another subscription. -/
def eavesdropping (g : Graph Unit) : Hub Unit Unit where
  service :=
    { tokens := .empty
      engine :=
        { instances := { running := Table.empty.insert "pair" (eavesdropper g) }
          journey := ⟨(), [], []⟩
          failures := { capacity := 1 } } }
  broker := { nextNumber := 1, subscriptions := [⟨0, "channels.*", []⟩] }

/-- Envelopes without a channel, from the channel of the service, without JSON, under the subject of the graph
but for another channel, and at last one that the graph listens to. -/
def mail : List (Occasion × Envelope) :=
  [{ channel := "", payload := [0x31] }, { channel := "rulechain", payload := [0x31] },
    { channel := "a.*", subTopic := ".>", payload := [0x7B] },
    { channel := "a", subTopic := "*..>", payload := [0x31] },
    { channel := "a.*", subTopic := ".>", publisher := "p", payload := [0x31], created := 5 }].map
      ({ now := 0, freshId := "", freshUuid := ⟨0⟩ }, ·)

/-- What the last envelope says. -/
def heard : Message where
  id := ⟨0⟩
  type := "telemetry"
  metadata := .ofList [("channel", "a.*"), ("publisher", "p"), ("sub_topic", ".>")]
  data := .number (.int 1)
  timestamp := 5

theorem startedBy_mail (g : Graph Unit) :
    mail.flatMap (eavesdropping g).service.startedBy = [⟨eavesdropper g, heard⟩] := by
  have hjson : Json.parse [0x31] = .ok (.number (.int 1)) := by decide +kernel
  have hbad : (Json.parse [0x7B]).isOk = false := by decide +kernel
  have hmessage : Envelope.messageOf { now := 0, freshId := "", freshUuid := ⟨0⟩ }
      { channel := "a.*", subTopic := ".>", publisher := "p", payload := [0x31], created := 5 }
      (.number (.int 1)) = heard := by decide +kernel
  have hself : (eavesdropping g).service.settings.selfChannel = "rulechain" := rfl
  have hvalues : (eavesdropping g).service.engine.instances.running.values = [eavesdropper g] := rfl
  have hchannel : (eavesdropper g).channel = "a.*" := rfl
  have hsubTopic : (eavesdropper g).subTopic = ".>" := rfl
  cases hparse : Json.parse [0x7B] with
  | ok v => simp [hparse, Except.isOk, Except.toBool] at hbad
  | error fault =>
    simp [mail, Service.startedBy, hself, hvalues, hchannel, hsubTopic, hparse, hjson, hmessage]

theorem started_eavesdropping : ∃ (g : Graph Unit) (h : Hub Unit Unit),
    Graph.compile .relay GraphPayload.pair.text () = (.ok g, ()) ∧
      (eavesdropping g).listen "channels.>" = .ok h ∧
      (h.publishAll .relay mail).service.engine.journey.entrances = [⟨[], g.entry, heard⟩] := by
  obtain ⟨g, hg⟩ := Graph.exists_compile_pair
  have hlisten : (eavesdropping g).listen "channels.>" =
      .ok ⟨(eavesdropping g).service, ⟨true, 2, [⟨0, "channels.*", []⟩, ⟨1, "channels.>", []⟩]⟩, [1]⟩ := rfl
  obtain ⟨hh, -⟩ := hears_listen rfl rfl hlisten
  obtain ⟨hall, -⟩ := started_of_hears (k := .relay) hh
  have hsound : ∀ i ∈ (eavesdropping g).service.engine.instances.running.values, i.graph.Sound := by
    have hvalues : (eavesdropping g).service.engine.instances.running.values = [eavesdropper g] := rfl
    rw [hvalues]
    exact List.forall_mem_singleton.2 (Graph.sound_of_compile hg)
  refine ⟨g, _, hg, hlisten, ?_⟩
  rw [(hall mail (by decide)).2 hsound, startedBy_mail g]
  rfl

end Hub

end RuleFlow
