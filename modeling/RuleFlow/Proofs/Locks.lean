import RuleFlow.Locks
import RuleFlow.Proofs.Table

/-!
# Locks exclude one another

Whatever callers do in whatever order, at most one ticket to a chain holds its lock
(`Locks.exclusive_after`). What carries this is that the table is never cleared too early: a ticket that is
out keeps its lock in the table, under its own chain and no other (`Locks.Sound`), so that whoever asks for
the lock of the chain gets the same one. Right after a request the table holds nothing else
(`Locks.Sound.mem_keys_request`). A lock that nobody holds is free for whoever waits for it, whatever locks of
other chains are held (`Locks.Sound.granted_mem_grant_iff`).
-/

namespace RuleFlow

namespace Ticket

@[simp] theorem number_granted (t : Ticket) : t.granted.number = t.number := rfl

@[simp] theorem chain_granted (t : Ticket) : t.granted.chain = t.chain := rfl

@[simp] theorem lock_granted (t : Ticket) : t.granted.lock = t.lock := rfl

end Ticket

namespace Locks

variable {s : Locks} {chain id : String} {lock number : Nat} {t : Ticket}

theorem inUse_iff : s.inUse lock = true ↔ ∃ t ∈ s.tickets, t.lock = lock := by
  simp [inUse]

theorem isHeld_iff : s.isHeld lock = true ↔ ∃ t ∈ s.tickets, t.holds = true ∧ t.lock = lock := by
  simp [isHeld]

/-- Pruning drops the locks that nobody holds or waits for. -/
theorem get?_prune : s.prune.table.get? id = some lock ↔
    s.table.get? id = some lock ∧ s.inUse lock = true := by
  simp [prune, Table.get?_filter, Option.filter_eq_some_iff]

/-- For all chains but its own a request only throws locks away. -/
theorem get?_request_of_ne (h : id ≠ chain) :
    (s.request chain).table.get? id = s.prune.table.get? id := by
  unfold Locks.request
  dsimp only
  split
  · rfl
  · simp [issue, create, Table.get?_insert, h]

theorem exists_mem_request (s : Locks) (chain : String) :
    ∃ t ∈ (s.request chain).tickets, t.chain = chain ∧ t.holds = false := by
  unfold Locks.request
  dsimp only
  split <;> exact ⟨_, List.mem_append_right _ List.mem_cons_self, rfl, rfl⟩

/-! ## The table and the tickets -/

/-- What holds of locks at all times. -/
structure Sound (s : Locks) : Prop where
  numbers : (s.tickets.map (·.number)).Nodup
  issued : ∀ t ∈ s.tickets, t.number < s.nextTicket
  /-- The lock of a ticket is the one that the table has for its chain. -/
  stored : ∀ t ∈ s.tickets, s.table.get? t.chain = some t.lock
  made : ∀ id lock, s.table.get? id = some lock → lock < s.nextLock
  /-- No two chains have the same lock. -/
  apart : ∀ id id' lock, s.table.get? id = some lock → s.table.get? id' = some lock → id = id'
  /-- No two tickets hold the same lock. -/
  alone : s.tickets.Pairwise fun t u => t.holds = true → u.holds = true → t.lock ≠ u.lock

theorem sound_empty : Sound {} where
  numbers := List.nodup_nil
  issued := by simp
  stored := by simp
  made := by simp
  apart := by simp
  alone := .nil

namespace Sound

/-- A lock that is thrown away is nobody's. -/
theorem prune (h : s.Sound) : s.prune.Sound where
  numbers := h.numbers
  issued := h.issued
  stored t ht := get?_prune.2 ⟨h.stored t ht, inUse_iff.2 ⟨t, ht, rfl⟩⟩
  made id lock hid := h.made id lock (get?_prune.1 hid).1
  apart id id' lock hid hid' := h.apart id id' lock (get?_prune.1 hid).1 (get?_prune.1 hid').1
  alone := h.alone

theorem create (h : s.Sound) (hchain : s.table.get? chain = none) : (s.create chain).Sound where
  numbers := h.numbers
  issued := h.issued
  stored t ht := by
    have ht' := h.stored t ht
    have hne : t.chain ≠ chain := fun e => by simp [← e, ht'] at hchain
    simpa [Locks.create, Table.get?_insert, hne] using ht'
  made id lock hid := by
    simp only [Locks.create, Table.get?_insert] at hid ⊢
    split at hid
    · cases hid
      exact Nat.lt_succ_self _
    · exact Nat.lt_succ_of_lt (h.made id lock hid)
  apart id id' lock hid hid' := by
    -- The new lock has a number that no lock had before.
    have hnew : ∀ id, s.table.get? id ≠ some s.nextLock := fun id hid =>
      Nat.lt_irrefl _ (h.made id _ hid)
    simp only [Locks.create, Table.get?_insert] at hid hid'
    split at hid <;> split at hid'
    case isTrue.isTrue e e' => rw [e, e']
    case isTrue.isFalse =>
      cases hid
      exact absurd hid' (hnew id')
    case isFalse.isTrue =>
      cases hid'
      exact absurd hid (hnew id)
    case isFalse.isFalse => exact h.apart id id' lock hid hid'
  alone := h.alone

/-- A new ticket for a stored lock keeps everything sound. -/
theorem issue (h : s.Sound) (hchain : s.table.get? chain = some lock) : (s.issue chain lock).Sound where
  numbers := by
    rw [Locks.issue, List.map_append, List.map_singleton, List.nodup_append]
    refine ⟨h.numbers, List.nodup_singleton _, fun n hn m hm => ?_⟩
    obtain ⟨t, ht, rfl⟩ := List.mem_map.1 hn
    rw [List.mem_singleton.1 hm]
    exact Nat.ne_of_lt (h.issued t ht)
  issued t ht := by
    rcases List.mem_append.1 ht with ht | ht
    · exact Nat.lt_succ_of_lt (h.issued t ht)
    · rw [List.mem_singleton.1 ht]
      exact Nat.lt_succ_self _
  stored t ht := by
    rcases List.mem_append.1 ht with ht | ht
    · exact h.stored t ht
    · rw [List.mem_singleton.1 ht]
      exact hchain
  made := h.made
  apart := h.apart
  alone := by
    -- The new ticket does not hold its lock.
    refine List.pairwise_append.2 ⟨h.alone, List.pairwise_singleton .., fun t _ u hu _ hholds => ?_⟩
    rw [List.mem_singleton.1 hu] at hholds
    cases hholds

theorem request (h : s.Sound) (chain : String) : (s.request chain).Sound := by
  unfold Locks.request
  dsimp only
  split
  case h_1 lock hlock => exact h.prune.issue hlock
  case h_2 hnone => exact (h.prune.create hnone).issue (by simp [Locks.create])

/-- A lock is granted only when nobody holds it. -/
theorem grant (h : s.Sound) (number : Nat) : (s.grant number).Sound := by
  unfold Locks.grant
  split
  case h_2 => exact h
  case h_1 t ht =>
    split
    case isTrue => exact h
    case isFalse hfree =>
      have hmem := List.mem_of_find?_eq_some ht
      obtain rfl : t.number = number := by simpa using List.find?_some ht
      have hnobody : ∀ u ∈ s.tickets, u.holds = true → u.lock ≠ t.lock :=
        fun u hu hholds hlock => hfree (isHeld_iff.2 ⟨u, hu, hholds, hlock⟩)
      have hself : ∀ u ∈ s.tickets, u.number = t.number → u.lock = t.lock :=
        fun u hu hnumber => by rw [List.inj_on_of_nodup_map h.numbers hu hmem hnumber]
      refine ⟨?_, ?_, ?_, h.made, h.apart, ?_⟩
      · simpa [Function.comp_def, apply_ite Ticket.number] using h.numbers
      · simpa [apply_ite Ticket.number] using h.issued
      · simpa [apply_ite Ticket.chain, apply_ite Ticket.lock] using h.stored
      · rw [List.pairwise_map]
        refine (h.alone.and (List.pairwise_map.1 h.numbers)).imp_of_mem ?_
        rintro u v hu hv ⟨halone, hne⟩ hholds hholds' hlock
        simp only [apply_ite Ticket.lock, Ticket.lock_granted, ite_self] at hlock
        -- One of the two may be the ticket that is granted its lock; the other does not hold it.
        by_cases hut : u.number = t.number
        · have hvt : v.number ≠ t.number := fun e => hne (hut.trans e.symm)
          rw [if_neg hvt] at hholds'
          exact hnobody v hv hholds' (hlock ▸ hself u hu hut)
        · rw [if_neg hut] at hholds
          by_cases hvt : v.number = t.number
          · exact hnobody u hu hholds (hlock ▸ hself v hv hvt)
          · rw [if_neg hvt] at hholds'
            exact halone hholds hholds' hlock

theorem release (h : s.Sound) (number : Nat) : (s.release number).Sound where
  numbers := h.numbers.sublist (List.filter_sublist.map _)
  issued t ht := h.issued t (List.mem_of_mem_filter ht)
  stored t ht := h.stored t (List.mem_of_mem_filter ht)
  made := h.made
  apart := h.apart
  alone := h.alone.filter _

theorem move (h : s.Sound) (m : Move) : (s.move m).Sound := by
  cases m with
  | request chain => exact h.request chain
  | grant number => exact h.grant number
  | release number => exact h.release number

theorem moves (h : s.Sound) (ms : List Move) : (s.moves ms).Sound := by
  induction ms generalizing s with
  | nil => exact h
  | cons m ms ih => exact ih (h.move m)

/-! ## What callers can rely on -/

/-- A chain has one holder at most. -/
theorem length_holders_le (h : s.Sound) (id : String) :
    (s.tickets.filter fun t => t.holds && t.chain = id).length ≤ 1 := by
  have halone := h.alone.filter fun t => t.holds && t.chain = id
  have hholder : ∀ t ∈ s.tickets.filter fun t => t.holds && t.chain = id,
      t.holds = true ∧ s.table.get? id = some t.lock := by
    intro t ht
    obtain ⟨hmem, hcond⟩ := List.mem_filter.1 ht
    obtain ⟨hholds, rfl⟩ := by simpa using hcond
    exact ⟨hholds, h.stored t hmem⟩
  generalize s.tickets.filter _ = ts at halone hholder ⊢
  match ts, halone, hholder with
  | [], _, _ => simp
  | [_], _, _ => simp
  | t :: u :: _, halone, hholder =>
    obtain ⟨ht, htlock⟩ := hholder t (by simp)
    obtain ⟨hu, hulock⟩ := hholder u (by simp)
    rw [htlock] at hulock
    exact absurd (Option.some.inj hulock) (List.rel_of_pairwise_cons halone (by simp) ht hu)

theorem ticket?_of_mem (h : s.Sound) (ht : t ∈ s.tickets) : s.ticket? t.number = some t := by
  cases hu : s.ticket? t.number with
  | none => simpa using List.find?_eq_none.1 hu t ht
  | some u =>
    have hnumber : u.number = t.number := by simpa using List.find?_some hu
    rw [List.inj_on_of_nodup_map h.numbers (List.mem_of_find?_eq_some hu) ht hnumber]

/-- A lock is held if and only if somebody holds the chain. -/
theorem isHeld_lock_iff (h : s.Sound) (ht : t ∈ s.tickets) :
    s.isHeld t.lock = true ↔ ∃ u ∈ s.tickets, u.chain = t.chain ∧ u.holds = true := by
  rw [isHeld_iff]
  refine exists_congr fun u => and_congr_right fun hu => ?_
  rw [and_comm]
  refine and_congr_left fun _ => ⟨fun hlock => ?_, fun hchain => ?_⟩
  · exact h.apart _ _ u.lock (h.stored u hu) (hlock ▸ h.stored t ht)
  · have hu := h.stored u hu
    rw [hchain, h.stored t ht] at hu
    exact (Option.some.inj hu).symm

/-- A lock is granted to a ticket that waits for it exactly if no ticket to the same chain holds it. -/
theorem granted_mem_grant_iff (h : s.Sound) (ht : t ∈ s.tickets) (hwaits : t.holds = false) :
    t.granted ∈ (s.grant t.number).tickets ↔
      ¬∃ u ∈ s.tickets, u.chain = t.chain ∧ u.holds = true := by
  rw [← h.isHeld_lock_iff ht, Locks.grant, h.ticket?_of_mem ht]
  dsimp only
  split
  case isTrue hheld =>
    refine iff_of_false (fun hgranted => ?_) (not_not_intro hheld)
    have hsame : t.granted = t := List.inj_on_of_nodup_map h.numbers hgranted ht rfl
    rw [← hsame] at hwaits
    cases hwaits
  case isFalse hfree => exact iff_of_true (List.mem_map.2 ⟨t, ht, if_pos rfl⟩) hfree

/-- Right after a request the table has a lock for the chain of the request and for chains to which there is
a ticket, and for no other. -/
theorem mem_keys_request (h : s.Sound) (hid : (s.request chain).table.contains id = true) :
    id = chain ∨ ∃ t ∈ s.tickets, t.chain = id := by
  by_cases hne : id = chain
  · exact .inl hne
  obtain ⟨lock, hlock⟩ := Table.contains_iff.1 hid
  rw [get?_request_of_ne hne] at hlock
  obtain ⟨hid, huse⟩ := get?_prune.1 hlock
  obtain ⟨t, ht, rfl⟩ := inUse_iff.1 huse
  exact .inr ⟨t, ht, h.apart _ _ t.lock (h.stored t ht) hid⟩

end Sound

/-- The locks after some moves, when there were none before. -/
def after (ms : List Move) : Locks := ({} : Locks).moves ms

/-- Whatever moves were made, at most one ticket to a chain holds its lock. Every ticket is to the lock that
the table has for its chain. One more request leaves locks only for the chain that is asked for and for the
chains to which there are tickets, and it gives a ticket that waits. Who waits can be granted the lock exactly
if nobody holds one of the same chain. -/
theorem exclusive_after (ms : List Move) :
    (∀ id, ((after ms).tickets.filter fun t => t.holds && t.chain = id).length ≤ 1) ∧
    (∀ t ∈ (after ms).tickets, (after ms).table.get? t.chain = some t.lock) ∧
    (∀ chain id, ((after ms).request chain).table.contains id = true →
      id = chain ∨ ∃ t ∈ (after ms).tickets, t.chain = id) ∧
    (∀ chain, ∃ t ∈ ((after ms).request chain).tickets, t.chain = chain ∧ t.holds = false) ∧
    ∀ t ∈ (after ms).tickets, t.holds = false →
      (t.granted ∈ ((after ms).grant t.number).tickets ↔
        ¬∃ u ∈ (after ms).tickets, u.chain = t.chain ∧ u.holds = true) := by
  have h : (after ms).Sound := sound_empty.moves ms
  exact ⟨h.length_holders_le, h.stored, fun chain id => h.mem_keys_request,
    exists_mem_request (after ms), fun t ht => h.granted_mem_grant_iff ht⟩

/-- One holds the lock of a chain and another one waits for it; a third has given up waiting for another. -/
def contended : List Move :=
  [.request "alarm", .grant 0, .request "alarm", .request "report", .release 2]

/-- The ticket that waits. -/
def waiting : Ticket := ⟨1, "alarm", 0, false⟩

theorem exclusive_contended :
    waiting ∈ (after contended).tickets ∧ (after contended).table.get? "alarm" = some 0 ∧
      ((after contended).request "report").table.contains "alarm" = true ∧
      ("alarm" = "report" ∨ ∃ t ∈ (after contended).tickets, t.chain = "alarm") ∧
      waiting.granted ∉ ((after contended).grant 1).tickets := by
  obtain ⟨-, hstored, hkeys, -, hgrant⟩ := exclusive_after contended
  have hwaiting : waiting ∈ (after contended).tickets := by decide +kernel
  have hkey : ((after contended).request "report").table.contains "alarm" = true := by decide +kernel
  refine ⟨hwaiting, hstored waiting hwaiting, hkey, hkeys "report" "alarm" hkey, fun hgranted => ?_⟩
  exact (hgrant waiting hwaiting rfl).1 hgranted
    ⟨⟨0, "alarm", 0, true⟩, by decide +kernel, rfl, rfl⟩

end Locks

end RuleFlow
