import Mathlib.Data.List.Induction
import RuleFlow.Broker

/-!
# What subscriptions get

Callers of a broker take turns (`Broker.turn`): they subscribe, publish, receive and drop subscriptions, and
each turn leaves an event. A subscription depends on the events after it began and on nothing else
(`Subscription.after`): what was taken from it and what it has queued is what was published for it since, in
this order (`Broker.taken_append_queue`). Who is subscribed can be read from the events as well
(`Broker.mem_live_iff`), and what one subscription gets does not depend on others that are dropped
(`Broker.Sound.turns_drop`).

A `Roster` learns that a subscription was dropped only when something is published: it then strikes the
dropped ones off its list and goes through the rest once. It leaves the same events as a broker
(`Roster.Lists.turns`).
-/

namespace RuleFlow

/-- What a caller does with a broker. -/
inductive Broker.Turn where
  | subscribe (pattern : String)
  | publish (subject : String) (payload : List UInt8)
  | receive (number : Nat)
  | drop (number : Nat)

/-- A turn that was taken and what came of it. -/
inductive Broker.Event where
  | subscribed (number : Nat) (pattern : String)
  | refused (e : RuleError)
  | published (subject : String) (payload : List UInt8) (count : Nat)
  | received (number : Nat) (payload : Option (List UInt8))
  | dropped (number : Nat)
  deriving DecidableEq

namespace Broker

/-- Takes a turn. -/
def turn (b : Broker) : Turn → Event × Broker
  | .subscribe pattern =>
    match b.subscribe pattern with
    | .ok (number, b) => (.subscribed number pattern, b)
    | .error e => (.refused e, b)
  | .publish subject payload =>
    match b.publish subject payload with
    | .ok (count, b) => (.published subject payload count, b)
    | .error e => (.refused e, b)
  | .receive number =>
    let (payload, b) := b.receive number
    (.received number payload, b)
  | .drop number => (.dropped number, b.unsubscribe number)

/-- Takes several turns; lists the events in their order. -/
def turns (b : Broker) : List Turn → List Event × Broker
  | [] => ([], b)
  | t :: ts =>
    let (e, b) := b.turn t
    let (es, b) := b.turns ts
    (e :: es, b)

/-- Turns one after the other: the events of both parts, the second from where the first ended. -/
theorem turns_append (b : Broker) (ts us : List Turn) :
    b.turns (ts ++ us) =
      ((b.turns ts).1 ++ ((b.turns ts).2.turns us).1, ((b.turns ts).2.turns us).2) := by
  induction ts generalizing b with
  | nil => rfl
  | cons t ts ih => simp [turns, ih]

/-- What was taken from a subscription. -/
def taken (number : Nat) (es : List Event) : List (List UInt8) :=
  es.filterMap fun
    | .received n payload => if n = number then payload else none
    | _ => none

/-- What was published under the subjects that match a pattern. -/
def sent (pattern : String) (es : List Event) : List (List UInt8) :=
  es.filterMap fun
    | .published subject payload _ => if Subject.isMatch pattern subject then some payload else none
    | _ => none

/-- What someone found who wanted to receive something from a subscription; it may have been nothing. -/
def Event.receipt? (number : Nat) : Event → Option (Option (List UInt8))
  | .received n payload => if n = number then some payload else none
  | _ => none

/-- The subscriptions with their patterns after an event. -/
def follow (subscribed : List (Nat × String)) : Event → List (Nat × String)
  | .subscribed number pattern => subscribed ++ [(number, pattern)]
  | .dropped number => subscribed.filter (·.1 ≠ number)
  | _ => subscribed

/-- The subscriptions that were made and not dropped since, with their patterns. -/
def live (es : List Event) : List (Nat × String) := es.foldl follow []

end Broker

/-- What becomes of a subscription by an event. -/
def Subscription.after (s : Subscription) : Broker.Event → Option Subscription
  | .published subject payload _ => some (s.offer subject payload)
  | .received number _ => some (if number = s.number then { s with queue := s.queue.tail } else s)
  | .dropped number => if number = s.number then none else some s
  | _ => some s

namespace Broker

variable {b b' : Broker} {number m : Nat} {pattern subject : String} {payload : List UInt8}

/-! ## Looking for a subscription -/

/-- Subscriptions that keep their numbers are found where they were. -/
theorem find?_number_map {f : Subscription → Subscription} (hf : ∀ s, (f s).number = s.number)
    (subscriptions : List Subscription) :
    (subscriptions.map f).find? (·.number = number) =
      (subscriptions.find? (·.number = number)).map f := by
  simp only [List.find?_map, Function.comp_def, hf]

theorem number_of_get? {s : Subscription} (h : b.get? number = some s) : s.number = number := by
  simpa using List.find?_some h

/-- An offer does not change the number of a subscription. -/
theorem number_offer (subject : String) (payload : List UInt8) (s : Subscription) :
    (s.offer subject payload).number = s.number := by
  unfold Subscription.offer
  split <;> rfl

/-- An offer puts the payload at the end of the queue if the pattern matches, and else does nothing. -/
theorem queue_offer (subject : String) (payload : List UInt8) (s : Subscription) :
    (s.offer subject payload).queue =
      s.queue ++ if Subject.isMatch s.pattern subject then [payload] else [] := by
  unfold Subscription.offer Subscription.wants
  split <;> simp

/-- An offer does not change the pattern of a subscription. -/
theorem pattern_offer (subject : String) (payload : List UInt8) (s : Subscription) :
    (s.offer subject payload).pattern = s.pattern := by
  unfold Subscription.offer
  split <;> rfl

theorem get?_publish {n : Nat} (h : b.publish subject payload = .ok (n, b')) :
    b'.get? number = (b.get? number).map (·.offer subject payload) := by
  unfold publish at h
  split at h
  · cases h
  · obtain ⟨-, rfl⟩ := Prod.mk.inj (Except.ok.inj h)
    exact find?_number_map (number_offer subject payload) b.subscriptions

theorem get?_modify_queue_eq (number m : Nat) (queue : List (List UInt8)) (b : Broker) :
    (b.modify number fun s => { s with queue := queue }).get? m =
      (b.get? m).map fun s => if s.number = number then { s with queue := queue } else s := by
  refine find?_number_map (fun s => ?_) b.subscriptions
  split <;> rfl

/-- What is queued after something was taken. -/
theorem get?_modify_queue (number : Nat) (queue : List (List UInt8)) (b : Broker) :
    (b.modify number fun s => { s with queue := queue }).get? number =
      (b.get? number).map fun s => { s with queue := queue } := by
  rw [get?_modify_queue_eq]
  exact Option.map_congr fun s hs => if_pos (number_of_get? hs)

/-- A subscription that is dropped is gone; the others stay. -/
theorem get?_unsubscribe (number m : Nat) (b : Broker) :
    (b.unsubscribe number).get? m = if m = number then none else b.get? m := by
  rw [get?, unsubscribe, List.find?_filter]
  split
  case isTrue h =>
    subst h
    exact List.find?_eq_none.2 fun s _ => by simp
  case isFalse h =>
    refine congrArg (b.subscriptions.find? ·) (funext fun s => ?_)
    by_cases hs : s.number = m
    · simp [hs, h]
    · simp [hs]

/-- A new subscription has an empty queue; the others stay. -/
theorem get?_subscribe (h : b.subscribe pattern = .ok (number, b')) (m : Nat) :
    b'.get? m = (b.get? m).or (if m = number then some ⟨number, pattern, []⟩ else none) := by
  unfold subscribe at h
  split at h
  · cases h
  · split at h
    · cases h
    · obtain ⟨rfl, rfl⟩ := Prod.mk.inj (Except.ok.inj h)
      simp [get?, List.find?_append, List.find?_singleton, eq_comm]

/-- What is received was queued longest. -/
theorem receive_fst (number : Nat) (b : Broker) :
    (b.receive number).1 = (b.get? number).bind (·.queue.head?) := by
  unfold receive
  cases b.get? number with
  | none => rfl
  | some s => cases hqueue : s.queue <;> simp [hqueue]

/-- What is received is taken from the front of the queue. -/
theorem get?_receive_self (number : Nat) (b : Broker) :
    (b.receive number).2.get? number =
      (b.get? number).map fun s => { s with queue := s.queue.tail } := by
  unfold receive
  cases h : b.get? number with
  | none => exact h
  | some s =>
    obtain ⟨n, pattern, queue⟩ := s
    cases queue with
    | nil => exact h
    | cons payload rest => simp [h, get?_modify_queue]

/-- Receiving from one subscription leaves the others alone. -/
theorem get?_receive_of_ne (h : m ≠ number) (b : Broker) : (b.receive number).2.get? m = b.get? m := by
  unfold receive
  split
  · rw [get?_modify_queue_eq]
    refine (Option.map_congr fun s hs => if_neg ?_).trans Option.map_id'
    rwa [number_of_get? hs]
  · rfl

/-! ## One subscription -/

/-- A subscription changes as the event of a turn says. -/
theorem get?_turn {s : Subscription} (h : b.get? number = some s) (t : Turn) :
    (b.turn t).2.get? number = s.after (b.turn t).1 := by
  have hnumber := number_of_get? h
  cases t with
  | subscribe pattern =>
    rw [turn]
    cases hsubscribe : b.subscribe pattern with
    | error e => exact h
    | ok r => simp [get?_subscribe hsubscribe, h, Subscription.after]
  | publish subject payload =>
    rw [turn]
    cases hpublish : b.publish subject payload with
    | error e => exact h
    | ok r => simp [get?_publish hpublish, h, Subscription.after]
  | receive n =>
    by_cases hn : number = n
    · subst hn
      simp [turn, get?_receive_self, h, Subscription.after, hnumber]
    · simp [turn, get?_receive_of_ne hn, h, Subscription.after, hnumber, Ne.symm hn]
  | drop n => simp only [turn, get?_unsubscribe, h, Subscription.after, hnumber, eq_comm]

theorem taken_append (number : Nat) (es es' : List Event) :
    taken number (es ++ es') = taken number es ++ taken number es' := List.filterMap_append

theorem sent_append (pattern : String) (es es' : List Event) :
    sent pattern (es ++ es') = sent pattern es ++ sent pattern es' := List.filterMap_append

/-- A subscription is still there after an event that does not drop it. -/
theorem exists_after {s : Subscription} {e : Event} (h : e ≠ .dropped s.number) :
    ∃ s', s.after e = some s' := by
  cases e with
  | dropped number => exact ⟨s, if_neg fun hnumber : number = s.number => h (congrArg _ hnumber)⟩
  | _ => exact ⟨_, rfl⟩

/-- What is received was queued longest. -/
theorem received_of_turn {s : Subscription} {t : Turn} {payload : Option (List UInt8)}
    (h : b.get? number = some s) (ht : (b.turn t).1 = .received number payload) :
    payload = s.queue.head? := by
  cases t with
  | subscribe pattern =>
    rw [turn] at ht
    cases hsubscribe : b.subscribe pattern <;> simp [hsubscribe] at ht
  | publish subject payload =>
    rw [turn] at ht
    cases hpublish : b.publish subject payload <;> simp [hpublish] at ht
  | receive n =>
    have hevent : Event.received n (b.receive n).1 = .received number payload := ht
    obtain ⟨rfl, rfl⟩ := Event.received.inj hevent
    rw [receive_fst, h, Option.bind_some]
  | drop n => cases ht

/-- What an event takes from a subscription leaves the queue at its front, what it publishes for it joins at
the end. -/
theorem taken_append_queue_after {s s' : Subscription} {e : Event} (hafter : s.after e = some s')
    (hfirst : ∀ payload, e = .received s.number payload → payload = s.queue.head?) :
    s'.pattern = s.pattern ∧ taken s.number [e] ++ s'.queue = s.queue ++ sent s.pattern [e] := by
  cases e with
  | subscribed number pattern =>
    obtain rfl := Option.some.inj hafter
    simp [taken, sent]
  | refused e =>
    obtain rfl := Option.some.inj hafter
    simp [taken, sent]
  | published subject payload count =>
    obtain rfl := Option.some.inj hafter
    rw [pattern_offer, queue_offer]
    by_cases hmatch : Subject.isMatch s.pattern subject <;> simp [taken, sent, hmatch]
  | received number payload =>
    by_cases hnumber : number = s.number
    · subst hnumber
      rw [hfirst payload rfl]
      obtain rfl := (if_pos rfl).symm.trans (Option.some.inj hafter)
      cases s.queue <;> simp [taken, sent]
    · obtain rfl := (if_neg hnumber).symm.trans (Option.some.inj hafter)
      simp [taken, sent, hnumber]
  | dropped number =>
    rw [Subscription.after] at hafter
    split at hafter
    · cases hafter
    · obtain rfl := Option.some.inj hafter
      simp [taken, sent]

/-- As long as a subscription is not dropped, what is taken from it and what it has queued then is what it had
queued and what was published for it, in this order. -/
theorem taken_append_queue {s : Subscription} (h : b.get? number = some s) (ts : List Turn)
    (hkept : .dropped number ∉ (b.turns ts).1) :
    ∃ s', (b.turns ts).2.get? number = some s' ∧ s'.pattern = s.pattern ∧
      taken number (b.turns ts).1 ++ s'.queue = s.queue ++ sent s.pattern (b.turns ts).1 := by
  induction ts generalizing b s with
  | nil => exact ⟨s, h, rfl, by simp [turns, taken, sent]⟩
  | cons t ts ih =>
    have hnumber := number_of_get? h
    obtain ⟨hfirst, hrest⟩ : (b.turn t).1 ≠ .dropped number ∧
        .dropped number ∉ ((b.turn t).2.turns ts).1 := by
      rw [turns, List.mem_cons, not_or] at hkept
      exact ⟨Ne.symm hkept.1, hkept.2⟩
    obtain ⟨s₁, hs₁⟩ := exists_after (hnumber ▸ hfirst)
    obtain ⟨hpattern₁, hqueue₁⟩ := taken_append_queue_after hs₁ fun payload hreceived =>
      received_of_turn h (hnumber ▸ hreceived)
    obtain ⟨s', hs', hpattern, hqueue⟩ := ih ((get?_turn h t).trans hs₁) hrest
    refine ⟨s', hs', hpattern.trans hpattern₁, ?_⟩
    calc taken number (b.turns (t :: ts)).1 ++ s'.queue
        = taken number [(b.turn t).1] ++ (taken number ((b.turn t).2.turns ts).1 ++ s'.queue) := by
          rw [← List.append_assoc, ← taken_append]
          rfl
      _ = (taken number [(b.turn t).1] ++ s₁.queue) ++ sent s₁.pattern ((b.turn t).2.turns ts).1 := by
          rw [hqueue, List.append_assoc]
      _ = s.queue ++ sent s.pattern (b.turns (t :: ts)).1 := by
          rw [← hnumber, hqueue₁, hpattern₁, List.append_assoc, ← sent_append]
          rfl

/-! ## All subscriptions -/

/-- The subscriptions of a broker with their patterns. -/
def subscribed (b : Broker) : List (Nat × String) := b.subscriptions.map fun s => (s.number, s.pattern)

/-- A broker that is open and whose next number is above those of its subscriptions. -/
structure Sound (b : Broker) : Prop where
  isOpen : b.isOpen = true
  number_lt : ∀ p ∈ b.subscribed, p.1 < b.nextNumber

theorem sound_empty : ({} : Broker).Sound where
  isOpen := rfl
  number_lt p hp := by cases hp

/-- A number that was not given yet belongs to no subscription. -/
theorem Sound.get?_of_le (hb : b.Sound) (h : b.nextNumber ≤ number) : b.get? number = none :=
  List.find?_eq_none.2 fun s hs hnumber => by
    have hlt := hb.number_lt _ (List.mem_map_of_mem hs)
    simp only [decide_eq_true_eq] at hnumber
    omega

/-- A subscription to a pattern succeeds and gets the next number. -/
theorem subscribe_eq (hopen : b.isOpen = true) (h : pattern ≠ "") :
    b.subscribe pattern = .ok (b.nextNumber,
      { b with
        nextNumber := b.nextNumber + 1
        subscriptions := b.subscriptions ++ [⟨b.nextNumber, pattern, []⟩] }) := by
  simp [subscribe, hopen, h]

/-- A publication succeeds and says how many subscriptions its subject matches. -/
theorem publish_eq (hopen : b.isOpen = true) (subject : String) (payload : List UInt8) :
    b.publish subject payload = .ok ((b.subscribed.filter fun p => Subject.isMatch p.2 subject).length,
      { b with subscriptions := b.subscriptions.map (·.offer subject payload) }) := by
  simp [publish, hopen, subscribed, List.filter_map, Function.comp_def, Subscription.wants]

theorem subscribed_offer (subject : String) (payload : List UInt8) (b : Broker) :
    ({ b with subscriptions := b.subscriptions.map (·.offer subject payload) } : Broker).subscribed =
      b.subscribed := by
  simp [subscribed, Function.comp_def, number_offer, pattern_offer]

theorem receive_snd (number : Nat) (b : Broker) :
    (b.receive number).2.isOpen = b.isOpen ∧ (b.receive number).2.nextNumber = b.nextNumber ∧
      (b.receive number).2.subscribed = b.subscribed := by
  unfold receive
  split
  · refine ⟨rfl, rfl, ?_⟩
    rw [subscribed, modify, List.map_map]
    refine List.map_congr_left fun s _ => ?_
    rw [Function.comp_apply]
    split <;> rfl
  · exact ⟨rfl, rfl, rfl⟩

/-- Dropping a subscription leaves the others in their order. -/
theorem subscribed_unsubscribe (number : Nat) (b : Broker) :
    (b.unsubscribe number).subscribed = b.subscribed.filter (·.1 ≠ number) := by
  simp [subscribed, unsubscribe, List.filter_map, Function.comp_def]

theorem turn_subscribe (hopen : b.isOpen = true) (h : pattern ≠ "") :
    b.turn (.subscribe pattern) = (.subscribed b.nextNumber pattern,
      { b with
        nextNumber := b.nextNumber + 1
        subscriptions := b.subscriptions ++ [⟨b.nextNumber, pattern, []⟩] }) := by
  rw [turn, subscribe_eq hopen h]

theorem turn_subscribe_empty (hopen : b.isOpen = true) :
    b.turn (.subscribe "") = (.refused .noTopic, b) := by
  simp [turn, subscribe, hopen]

theorem turn_publish (hopen : b.isOpen = true) (subject : String) (payload : List UInt8) :
    b.turn (.publish subject payload) =
      (.published subject payload (b.subscribed.filter fun p => Subject.isMatch p.2 subject).length,
        { b with subscriptions := b.subscriptions.map (·.offer subject payload) }) := by
  rw [turn, publish_eq hopen]

/-- A turn changes the subscriptions as its event says. -/
theorem Sound.subscribed_turn (hb : b.Sound) (t : Turn) :
    (b.turn t).2.subscribed = follow b.subscribed (b.turn t).1 := by
  cases t with
  | subscribe pattern =>
    by_cases h : pattern = ""
    · rw [h, turn_subscribe_empty hb.isOpen]
      rfl
    · rw [turn_subscribe hb.isOpen h]
      simp [subscribed, follow]
  | publish subject payload =>
    rw [turn_publish hb.isOpen]
    exact subscribed_offer subject payload b
  | receive n => exact (receive_snd n b).2.2
  | drop n => exact subscribed_unsubscribe n b

/-- Every turn keeps a broker sound. -/
theorem Sound.turn (hb : b.Sound) (t : Turn) : (b.turn t).2.Sound := by
  have hsubscribed := hb.subscribed_turn t
  cases t with
  | subscribe pattern =>
    by_cases h : pattern = ""
    · rwa [h, turn_subscribe_empty hb.isOpen]
    · rw [turn_subscribe hb.isOpen h] at hsubscribed ⊢
      refine ⟨hb.isOpen, fun p hp => ?_⟩
      rw [hsubscribed] at hp
      rcases List.mem_append.1 hp with hold | hnew
      · exact Nat.lt_succ_of_lt (hb.number_lt p hold)
      · obtain rfl := List.mem_singleton.1 hnew
        exact Nat.lt_succ_self _
  | publish subject payload =>
    rw [turn_publish hb.isOpen]
    refine ⟨hb.isOpen, fun p hp => hb.number_lt p ?_⟩
    rwa [subscribed_offer] at hp
  | receive n =>
    obtain ⟨hopen, hnext, hsame⟩ := receive_snd n b
    exact ⟨hopen.trans hb.isOpen, fun p hp => hnext ▸ hb.number_lt p (hsame ▸ hp)⟩
  | drop n =>
    refine ⟨hb.isOpen, fun p hp => hb.number_lt p ?_⟩
    rw [hsubscribed] at hp
    exact (List.mem_filter.1 hp).1

/-- Over all turns a broker stays sound, and the events say who is subscribed. -/
theorem Sound.turns (hb : b.Sound) (ts : List Turn) :
    (b.turns ts).2.Sound ∧ (b.turns ts).2.subscribed = (b.turns ts).1.foldl follow b.subscribed := by
  induction ts generalizing b with
  | nil => exact ⟨hb, rfl⟩
  | cons t ts ih =>
    obtain ⟨hsound, hsubscribed⟩ := ih (hb.turn t)
    exact ⟨hsound, hsubscribed.trans (by rw [hb.subscribed_turn]; rfl)⟩

/-- Some turns led to an event, which began a subscription or not, and others followed. -/
theorem exists_turns_of_events {ts : List Turn} {before after : List Event} {e : Event}
    (h : (b.turns ts).1 = before ++ e :: after) :
    ∃ us t vs, ts = us ++ t :: vs ∧ (b.turns us).1 = before ∧ ((b.turns us).2.turn t).1 = e ∧
      (((b.turns us).2.turn t).2.turns vs).1 = after := by
  induction before generalizing b ts with
  | nil =>
    cases ts with
    | nil => cases h
    | cons t ts =>
      obtain ⟨hevent, hafter⟩ := List.cons.inj h
      exact ⟨[], t, ts, rfl, rfl, hevent, hafter⟩
  | cons e' before ih =>
    cases ts with
    | nil => cases h
    | cons t ts =>
      obtain ⟨hevent, hrest⟩ := List.cons.inj h
      obtain ⟨us, t', vs, rfl, hbefore, hevent', hafter⟩ := ih hrest
      exact ⟨t :: us, t', vs, rfl, congr (congrArg _ hevent) hbefore, hevent', hafter⟩

/-- A turn that begins a subscription gives it the next number, and nothing is queued in it. -/
theorem Sound.get?_of_subscribed (hb : b.Sound) {t : Turn}
    (h : (b.turn t).1 = .subscribed number pattern) :
    number = b.nextNumber ∧ (b.turn t).2.get? number = some ⟨number, pattern, []⟩ := by
  cases t with
  | subscribe pattern' =>
    by_cases hempty : pattern' = ""
    · rw [hempty, turn_subscribe_empty hb.isOpen] at h
      cases h
    · rw [turn_subscribe hb.isOpen hempty] at h ⊢
      obtain ⟨rfl, rfl⟩ := Event.subscribed.inj h
      refine ⟨rfl, ?_⟩
      rw [get?_subscribe (subscribe_eq hb.isOpen hempty), hb.get?_of_le (Nat.le_refl _), if_pos rfl,
        Option.none_or]
  | publish subject payload =>
    rw [turn_publish hb.isOpen] at h
    cases h
  | receive n => cases h
  | drop n => cases h

/-- Numbers are not given back. -/
theorem Sound.nextNumber_le_turn (hb : b.Sound) (t : Turn) : b.nextNumber ≤ (b.turn t).2.nextNumber := by
  cases t with
  | subscribe pattern =>
    by_cases h : pattern = ""
    · exact Nat.le_of_eq (by rw [h, turn_subscribe_empty hb.isOpen])
    · rw [turn_subscribe hb.isOpen h]
      exact Nat.le_succ _
  | publish subject payload => exact Nat.le_of_eq (by rw [turn_publish hb.isOpen])
  | receive n => exact Nat.le_of_eq (receive_snd n b).2.1.symm
  | drop n => exact Nat.le_refl _

/-- Numbers are not given back, however many turns there are. -/
theorem Sound.nextNumber_le_turns (hb : b.Sound) (ts : List Turn) :
    b.nextNumber ≤ (b.turns ts).2.nextNumber := by
  induction ts generalizing b with
  | nil => exact Nat.le_refl _
  | cons t ts ih => exact Nat.le_trans (hb.nextNumber_le_turn t) (ih (hb.turn t))

/-- Nothing is taken from a subscription that is not there. -/
theorem taken_turn_of_get? (h : b.get? number = none) (t : Turn) : taken number [(b.turn t).1] = [] := by
  cases t with
  | subscribe pattern => rw [turn]; cases b.subscribe pattern <;> rfl
  | publish subject payload => rw [turn]; cases b.publish subject payload <;> rfl
  | receive n =>
    have hevent : (b.turn (.receive n)).1 = .received n (b.receive n).1 := rfl
    by_cases hn : n = number
    · subst hn
      simp [hevent, taken, receive_fst, h]
    · simp [hevent, taken, hn]
  | drop n => rfl

/-- Nothing is taken from a subscription before it begins. -/
theorem Sound.taken_turns_eq_nil (hb : b.Sound) (ts : List Turn)
    (h : (b.turns ts).2.nextNumber ≤ number) : taken number (b.turns ts).1 = [] := by
  induction ts generalizing b with
  | nil => rfl
  | cons t ts ih =>
    have hle : b.nextNumber ≤ number := Nat.le_trans (hb.nextNumber_le_turns (t :: ts)) h
    have hcons : (b.turns (t :: ts)).1 = [(b.turn t).1] ++ ((b.turn t).2.turns ts).1 := rfl
    rw [hcons, taken_append, taken_turn_of_get? (hb.get?_of_le hle), ih (hb.turn t) h, List.nil_append]

/-- What a subscription that was not dropped took since it began and what it has queued is what was published
for it since. -/
theorem Sound.account (hb : b.Sound) {ts : List Turn} {before after : List Event}
    (h : (b.turns ts).1 = before ++ .subscribed number pattern :: after)
    (hkept : .dropped number ∉ after) :
    ∃ queue, (b.turns ts).2.get? number = some ⟨number, pattern, queue⟩ ∧
      taken number (b.turns ts).1 ++ queue = sent pattern after := by
  obtain ⟨us, t, vs, rfl, rfl, hevent, rfl⟩ := exists_turns_of_events h
  have hsound := (hb.turns us).1
  obtain ⟨hnumber, hbegun⟩ := hsound.get?_of_subscribed hevent
  obtain ⟨s, hs, hpattern, hqueue⟩ := taken_append_queue hbegun vs hkept
  -- The number was still to be given, so nothing can have been taken under it.
  have hbefore : taken number (b.turns us).1 = [] := hb.taken_turns_eq_nil us (Nat.le_of_eq hnumber.symm)
  refine ⟨s.queue, ?_, ?_⟩
  · rw [turns_append]
    obtain rfl := number_of_get? hs
    obtain rfl : s.pattern = pattern := hpattern
    exact hs
  · rw [h, taken_append, hbefore]
    exact hqueue

/-! ## Other subscriptions -/

/-- What one subscription has and gets by a turn depends on no other. -/
theorem Sound.turn_congr (hb : b.Sound) (hb' : b'.Sound) (hnext : b.nextNumber = b'.nextNumber)
    (hsame : b.get? m = b'.get? m) (t : Turn) :
    (b.turn t).1.receipt? m = (b'.turn t).1.receipt? m ∧
      (b.turn t).2.nextNumber = (b'.turn t).2.nextNumber ∧
        (b.turn t).2.get? m = (b'.turn t).2.get? m := by
  cases t with
  | subscribe pattern =>
    by_cases h : pattern = ""
    · rw [h, turn_subscribe_empty hb.isOpen, turn_subscribe_empty hb'.isOpen]
      exact ⟨rfl, hnext, hsame⟩
    · have hget := get?_subscribe (subscribe_eq hb.isOpen h) m
      have hget' := get?_subscribe (subscribe_eq hb'.isOpen h) m
      rw [turn_subscribe hb.isOpen h, turn_subscribe hb'.isOpen h]
      refine ⟨rfl, congrArg (· + 1) hnext, hget.trans (Eq.trans ?_ hget'.symm)⟩
      rw [hsame, hnext]
  | publish subject payload =>
    rw [turn_publish hb.isOpen, turn_publish hb'.isOpen]
    refine ⟨rfl, hnext, (get?_publish (publish_eq hb.isOpen subject payload)).trans ?_⟩
    rw [hsame]
    exact (get?_publish (publish_eq hb'.isOpen subject payload)).symm
  | receive n =>
    have hreceipt : (if n = m then some (b.receive n).1 else none) =
        if n = m then some (b'.receive n).1 else none := by
      split
      case isTrue hn => rw [hn, receive_fst, receive_fst, hsame]
      case isFalse => rfl
    have hget : (b.receive n).2.get? m = (b'.receive n).2.get? m := by
      by_cases hn : m = n
      · subst hn
        rw [get?_receive_self, get?_receive_self, hsame]
      · rw [get?_receive_of_ne hn, get?_receive_of_ne hn, hsame]
    exact ⟨hreceipt, (receive_snd n b).2.1.trans (hnext.trans (receive_snd n b').2.1.symm), hget⟩
  | drop n =>
    have hget : (b.unsubscribe n).get? m = (b'.unsubscribe n).get? m := by
      rw [get?_unsubscribe, get?_unsubscribe, hsame]
    exact ⟨rfl, hnext, hget⟩

/-- Two brokers with the same subscription give it the same over the same turns. -/
theorem Sound.turns_congr (hb : b.Sound) (hb' : b'.Sound) (hnext : b.nextNumber = b'.nextNumber)
    (hsame : b.get? m = b'.get? m) (ts : List Turn) :
    (b.turns ts).1.filterMap (·.receipt? m) = (b'.turns ts).1.filterMap (·.receipt? m) ∧
      (b.turns ts).2.get? m = (b'.turns ts).2.get? m := by
  induction ts generalizing b b' with
  | nil => exact ⟨rfl, hsame⟩
  | cons t ts ih =>
    obtain ⟨hreceipt, hnext, hsame⟩ := hb.turn_congr hb' hnext hsame t
    obtain ⟨hrest, hget⟩ := ih (hb.turn t) (hb'.turn t) hnext hsame
    refine ⟨?_, hget⟩
    simp only [Broker.turns, List.filterMap_cons, hreceipt, hrest]

/-- Whoever receives from a subscription finds the same, and it has the same queued then, whether another one
was dropped or not. -/
theorem Sound.turns_drop (hb : b.Sound) (h : m ≠ number) (ts : List Turn) :
    (b.turns (.drop number :: ts)).1.filterMap (·.receipt? m) =
        (b.turns ts).1.filterMap (·.receipt? m) ∧
      (b.turns (.drop number :: ts)).2.get? m = (b.turns ts).2.get? m := by
  refine (hb.turn (.drop number)).turns_congr hb rfl ?_ ts
  exact (get?_unsubscribe number m b).trans (if_neg h)

theorem live_append (es : List Event) (e : Event) : live (es ++ [e]) = follow (live es) e := by
  rw [live, List.foldl_append, live]
  rfl

/-- Who is subscribed after an event: who was and was not dropped, and who has just subscribed. -/
theorem mem_follow {l : List (Nat × String)} {p : Nat × String} {e : Event} :
    p ∈ follow l e ↔ p ∈ l ∧ e ≠ .dropped p.1 ∨ e = .subscribed p.1 p.2 := by
  cases e with
  | subscribed n pattern =>
    simp only [follow, List.mem_append, List.mem_singleton, Prod.ext_iff, ne_eq, reduceCtorEq,
      not_false_eq_true, and_true, Event.subscribed.injEq]
    exact or_congr_right (and_congr eq_comm eq_comm)
  | refused e => simp [follow]
  | published subject payload count => simp [follow]
  | received n payload => simp [follow]
  | dropped n =>
    simp only [follow, List.mem_filter, decide_eq_true_eq, ne_eq, Event.dropped.injEq, reduceCtorEq, or_false]
    exact and_congr_right fun _ => not_congr eq_comm

/-- The live subscriptions are those that were made and not dropped since. -/
theorem mem_live_iff {es : List Event} {p : Nat × String} :
    p ∈ live es ↔ ∃ before after, es = before ++ .subscribed p.1 p.2 :: after ∧
      .dropped p.1 ∉ after := by
  induction es using List.reverseRecOn with
  | nil => simp [live]
  | append_singleton es e ih =>
    rw [live_append, mem_follow, ih]
    constructor
    · rintro (⟨⟨before, after, rfl, hkept⟩, he⟩ | rfl)
      · refine ⟨before, after ++ [e], by simp, ?_⟩
        simpa [hkept] using he.symm
      · exact ⟨es, [], rfl, List.not_mem_nil⟩
    · rintro ⟨before, after, hes, hkept⟩
      rcases after.eq_nil_or_concat with rfl | ⟨after, e', rfl⟩
      · exact .inr (List.head_eq_of_cons_eq (List.append_inj_right' hes rfl))
      · rw [List.concat_eq_append, ← List.cons_append, ← List.append_assoc] at hes
        obtain ⟨hinit, hlast⟩ := List.append_inj' hes rfl
        obtain rfl := List.head_eq_of_cons_eq hlast
        rw [List.concat_eq_append, List.mem_append, not_or, List.mem_singleton] at hkept
        exact .inl ⟨⟨before, after, hinit, hkept.1⟩, Ne.symm hkept.2⟩

end Broker

/-! ## Striking off late -/

/-- A subscription on a roster, which may have been dropped. -/
structure Listing extends Subscription where
  isDropped : Bool := false
  deriving DecidableEq

/-- Subscriptions of which those that were dropped are struck off when something is published. -/
structure Roster where
  nextNumber : Nat := 0
  listings : List Listing := []

namespace Roster

/-- Goes through a list once, queues something wherever it is wanted and counts these. -/
def deliver (subject : String) (payload : List UInt8) (count : Nat) : List Listing → Nat × List Listing
  | [] => (count, [])
  | l :: ls =>
    if l.wants subject ∧ ¬l.isDropped then
      let (total, ls) := deliver subject payload (count + 1) ls
      (total, { l with queue := l.queue ++ [payload] } :: ls)
    else
      let (total, ls) := deliver subject payload count ls
      (total, l :: ls)

/-- The listing with a number, if it was not dropped. -/
def get? (r : Roster) (number : Nat) : Option Listing :=
  r.listings.find? fun l => l.number = number ∧ ¬l.isDropped

/-- Takes a turn. -/
def turn (r : Roster) : Broker.Turn → Broker.Event × Roster
  | .subscribe pattern =>
    if pattern = "" then (.refused .noTopic, r)
    else
      (.subscribed r.nextNumber pattern,
        { nextNumber := r.nextNumber + 1
          listings := r.listings ++ [{ number := r.nextNumber, pattern }] })
  | .publish subject payload =>
    let (count, listings) := deliver subject payload 0 (r.listings.filter (¬·.isDropped))
    (.published subject payload count, { r with listings })
  | .receive number =>
    match (r.get? number).map (·.queue) with
    | some (payload :: rest) =>
      (.received number (some payload),
        { r with
          listings := r.listings.map fun l => if l.number = number then { l with queue := rest } else l })
    | _ => (.received number none, r)
  | .drop number =>
    (.dropped number,
      { r with
        listings := r.listings.map fun l => if l.number = number then { l with isDropped := true } else l })

/-- Takes several turns; lists the events in their order. -/
def turns (r : Roster) : List Broker.Turn → List Broker.Event × Roster
  | [] => ([], r)
  | t :: ts =>
    let (e, r) := r.turn t
    let (es, r) := r.turns ts
    (e :: es, r)

/-- The subscriptions on a roster that were not dropped. -/
def current (ls : List Listing) : List Subscription :=
  (ls.filter (¬·.isDropped)).map (·.toSubscription)

variable {subject : String} {payload : List UInt8}

/-- Going through a list once counts and queues as matching all of it does. -/
theorem deliver_eq (count : Nat) {ls : List Listing} (hls : ∀ l ∈ ls, l.isDropped = false) :
    deliver subject payload count ls =
      (count + (ls.filter (·.wants subject)).length,
        ls.map fun l => { l with toSubscription := l.offer subject payload }) := by
  induction ls generalizing count with
  | nil => rfl
  | cons l ls ih =>
    obtain ⟨hl, hls⟩ := List.forall_mem_cons.1 hls
    by_cases hwants : l.wants subject
    · simp [deliver, hwants, hl, ih _ hls, Subscription.offer]
      omega
    · simp [deliver, hwants, ih _ hls, Subscription.offer]

theorem current_append (ls ls' : List Listing) : current (ls ++ ls') = current ls ++ current ls' := by
  simp [current]

/-- What changes listings but does not drop them changes the subscriptions. -/
theorem current_map {f : Listing → Listing} {g : Subscription → Subscription}
    (hdropped : ∀ l, (f l).isDropped = l.isDropped) (hsame : ∀ l, (f l).toSubscription = g l.toSubscription)
    (ls : List Listing) : current (ls.map f) = (current ls).map g := by
  simp [current, List.filter_map, Function.comp_def, hdropped, hsame]

/-- Dropping a listing takes it from the current ones and keeps the order. -/
theorem current_drop (number : Nat) (ls : List Listing) :
    current (ls.map fun l => if l.number = number then { l with isDropped := true } else l) =
      (current ls).filter (·.number ≠ number) := by
  induction ls with
  | nil => rfl
  | cons l ls ih =>
    rw [List.map_cons, ← List.singleton_append, current_append, ih, ← List.singleton_append (l := ls),
      current_append, List.filter_append]
    refine congrArg (· ++ _) ?_
    by_cases hnumber : l.number = number <;> cases hdropped : l.isDropped <;>
      simp [current, hnumber, hdropped]

/-- A roster lists what a broker has, and perhaps more that was dropped. -/
structure Lists (r : Roster) (b : Broker) : Prop where
  isOpen : b.isOpen = true
  nextNumber : r.nextNumber = b.nextNumber
  current : current r.listings = b.subscriptions

theorem lists_empty : ({} : Roster).Lists {} := ⟨rfl, rfl, rfl⟩

/-- A roster has the same subscriptions as the broker it lists. -/
theorem Lists.get? {r : Roster} {b : Broker} (h : r.Lists b) (number : Nat) :
    b.get? number = (r.get? number).map (·.toSubscription) := by
  rw [Broker.get?, ← h.current, Roster.current, List.find?_map, List.find?_filter, Roster.get?]
  simp [and_comm]

/-- A roster and a broker that are given the same turn leave the same event. -/
theorem Lists.turn {r : Roster} {b : Broker} (h : r.Lists b) (t : Broker.Turn) :
    (r.turn t).1 = (b.turn t).1 ∧ (r.turn t).2.Lists (b.turn t).2 := by
  obtain ⟨hopen, hnext, hcurrent⟩ := id h
  cases t with
  | subscribe pattern =>
    by_cases hpattern : pattern = ""
    · rw [hpattern, Broker.turn_subscribe_empty hopen]
      exact ⟨rfl, hopen, hnext, hcurrent⟩
    · rw [Broker.turn_subscribe hopen hpattern, Roster.turn, if_neg hpattern, hnext]
      refine ⟨rfl, hopen, rfl, ?_⟩
      rw [current_append, hcurrent]
      rfl
  | publish subject payload =>
    have hkept : ∀ l ∈ r.listings.filter (¬·.isDropped), l.isDropped = false := by simp
    rw [Broker.turn_publish hopen, Roster.turn, deliver_eq 0 hkept]
    refine ⟨?_, hopen, hnext, ?_⟩
    · rw [Broker.subscribed, ← hcurrent, Roster.current]
      simp [List.filter_map, Function.comp_def, Subscription.wants]
    · rw [← hcurrent]
      have hcurrent' : Roster.current (r.listings.filter (¬·.isDropped)) = Roster.current r.listings := by
        simp [Roster.current]
      rw [← hcurrent']
      exact current_map (f := fun l => { l with toSubscription := l.offer subject payload })
        (fun _ => rfl) (fun _ => rfl) _
  | receive number =>
    have hget := h.get? number
    rw [Roster.turn, Broker.turn, Broker.receive, hget]
    cases r.get? number with
    | none => exact ⟨rfl, h⟩
    | some l =>
      obtain ⟨⟨n, pattern, queue⟩, isDropped⟩ := l
      cases queue with
      | nil => exact ⟨rfl, h⟩
      | cons payload rest =>
        refine ⟨rfl, hopen, hnext, ?_⟩
        refine (current_map (g := fun s => if s.number = number then { s with queue := rest } else s)
          (fun l => ?_) (fun l => ?_) r.listings).trans (congrArg (List.map _) hcurrent)
        · split <;> rfl
        · split <;> rfl
  | drop number =>
    exact ⟨rfl, hopen, hnext, (current_drop number r.listings).trans (congrArg _ hcurrent)⟩

/-- A roster and a broker show the same events over all turns. -/
theorem Lists.turns {r : Roster} {b : Broker} (h : r.Lists b) (ts : List Broker.Turn) :
    (r.turns ts).1 = (b.turns ts).1 ∧ (r.turns ts).2.Lists (b.turns ts).2 := by
  induction ts generalizing r b with
  | nil => exact ⟨rfl, h⟩
  | cons t ts ih =>
    obtain ⟨hevent, hlists⟩ := h.turn t
    obtain ⟨hevents, hrest⟩ := ih hlists
    exact ⟨congr (congrArg _ hevent) hevents, hrest⟩

end Roster

/-! ## Every run -/

namespace Broker

/-- After any turns with a new broker, what a subscription that is live took and what it has queued is what
was published for it since it began, in this order, and the first thing queued is received next. Whatever is
published next is counted once for each live subscription that matches. To drop a subscription changes nothing
for another one, and to strike it off late changes nothing for anyone. -/
theorem delivered (ts : List Turn) {es : List Event} {b : Broker} (hts : turns {} ts = (es, b)) :
    (∀ before number pattern after, es = before ++ .subscribed number pattern :: after →
      .dropped number ∉ after →
        ∃ queue, b.get? number = some ⟨number, pattern, queue⟩ ∧
          taken number es ++ queue = sent pattern after ∧ (b.receive number).1 = queue.head?) ∧
    (∀ subject payload, ∃ b',
      b.publish subject payload =
        .ok (((live es).filter fun p => Subject.isMatch p.2 subject).length, b')) ∧
    (∀ number m us, m ≠ number →
      (b.turns (.drop number :: us)).1.filterMap (·.receipt? m) =
          (b.turns us).1.filterMap (·.receipt? m) ∧
        (b.turns (.drop number :: us)).2.get? m = (b.turns us).2.get? m) ∧
    (Roster.turns {} ts).1 = es := by
  have hes : (turns {} ts).1 = es := congrArg Prod.fst hts
  have hb : (turns {} ts).2 = b := congrArg Prod.snd hts
  obtain ⟨hsound, hsubscribed⟩ := sound_empty.turns ts
  rw [hb] at hsound
  refine ⟨?_, ?_, ?_, ?_⟩
  · intro before number pattern after h hkept
    obtain ⟨queue, hqueue, htaken⟩ := sound_empty.account (hes.trans h) hkept
    rw [hb] at hqueue
    rw [hes] at htaken
    refine ⟨queue, hqueue, htaken, ?_⟩
    rw [receive_fst, hqueue, Option.bind_some]
  · intro subject payload
    have hlive : b.subscribed = live es := by rw [← hb, hsubscribed, hes]; rfl
    rw [← hlive]
    exact ⟨_, publish_eq hsound.isOpen subject payload⟩
  · intro number m us h
    exact hsound.turns_drop h us
  · exact (Roster.lists_empty.turns ts).1.trans hes

/-- One subscription receives something before another one, which got something as well, is dropped. -/
def crossing : List Turn :=
  [.subscribe "channels.>", .subscribe "channels.c2", .publish "channels.c1.t1" [1],
    .publish "channels.c2" [2], .receive 0, .drop 1, .publish "channels.c2" [3]]

/-- Two subscriptions, one of them dropped between the publications. -/
theorem delivered_crossing :
    (turns {} crossing).1 =
        [.subscribed 0 "channels.>", .subscribed 1 "channels.c2", .published "channels.c1.t1" [1] 1,
          .published "channels.c2" [2] 2, .received 0 (some [1]), .dropped 1,
          .published "channels.c2" [3] 1] ∧
      (∃ queue, (turns {} crossing).2.get? 0 = some ⟨0, "channels.>", queue⟩ ∧
        [[1]] ++ queue = [[1], [2], [3]] ∧ ((turns {} crossing).2.receive 0).1 = queue.head?) ∧
      ∃ b', (turns {} crossing).2.publish "channels.c2" [4] = .ok (1, b') := by
  have hrun : turns {} crossing = ((turns {} crossing).1, (turns {} crossing).2) := rfl
  have hevents : (turns {} crossing).1 =
      [.subscribed 0 "channels.>", .subscribed 1 "channels.c2", .published "channels.c1.t1" [1] 1,
        .published "channels.c2" [2] 2, .received 0 (some [1]), .dropped 1,
        .published "channels.c2" [3] 1] := by decide +kernel
  obtain ⟨haccount, hcount, -, -⟩ := delivered crossing hrun
  obtain ⟨queue, hqueue, htaken, hreceive⟩ := haccount [] 0 "channels.>" _ hevents (by decide)
  obtain ⟨b', hb'⟩ := hcount "channels.c2" [4]
  rw [hevents] at htaken hb'
  exact ⟨hevents, ⟨queue, hqueue, htaken, hreceive⟩, b', hb'⟩

end Broker

end RuleFlow
