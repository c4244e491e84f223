import RuleFlow.Table

/-!
# Locks of chains

Operations on one chain exclude one another. A caller asks for the lock of the chain and gets a ticket
(`Locks.request`); the ticket waits until the lock is granted to it (`Locks.grant`) and is handed back when
the operation has ended or the caller no longer waits (`Locks.release`). The table of locks stays small:
before each request the locks to which nobody has a ticket are thrown away, and a new lock is made for a
chain that has none. Locks are numbered, so that a lock made anew is not the one that was thrown away.
-/

namespace RuleFlow

/-- The right to hold a lock in turn. -/
structure Ticket where
  number : Nat
  chain : String
  lock : Nat
  holds : Bool := false
  deriving DecidableEq

/-- The ticket while it holds its lock. -/
def Ticket.granted (t : Ticket) : Ticket := { t with holds := true }

/-- The lock of each chain, and the tickets that are out. -/
structure Locks where
  table : Table Nat := .empty
  tickets : List Ticket := []
  nextLock : Nat := 0
  nextTicket : Nat := 0
  deriving DecidableEq

namespace Locks

/-- Whether somebody has a ticket for a lock. -/
def inUse (s : Locks) (lock : Nat) : Bool := s.tickets.any (·.lock = lock)

/-- Whether somebody holds a lock. -/
def isHeld (s : Locks) (lock : Nat) : Bool := s.tickets.any fun t => t.holds ∧ t.lock = lock

/-- The ticket with a number. -/
def ticket? (s : Locks) (number : Nat) : Option Ticket := s.tickets.find? (·.number = number)

/-- Throws away the locks to which nobody has a ticket. -/
def prune (s : Locks) : Locks := { s with table := s.table.filter fun _ lock => s.inUse lock }

/-- Gives out a ticket for a lock. -/
def issue (chain : String) (lock : Nat) (s : Locks) : Locks :=
  { s with
    tickets := s.tickets ++ [⟨s.nextTicket, chain, lock, false⟩]
    nextTicket := s.nextTicket + 1 }

/-- Makes a lock for a chain. -/
def create (chain : String) (s : Locks) : Locks :=
  { s with table := s.table.insert chain s.nextLock, nextLock := s.nextLock + 1 }

/-- Asks for the lock of a chain; the ticket waits. -/
def request (chain : String) (s : Locks) : Locks :=
  let s := s.prune
  match s.table.get? chain with
  | some lock => s.issue chain lock
  | none => s.create chain |>.issue chain s.nextLock

/-- Lets a ticket that waits hold its lock, unless another one does. -/
def grant (number : Nat) (s : Locks) : Locks :=
  match s.ticket? number with
  | some t =>
    if s.isHeld t.lock then s
    else
      { s with tickets := s.tickets.map fun u => if u.number = number then u.granted else u }
  | none => s

/-- Takes back a ticket, whether it holds its lock or waits. -/
def release (number : Nat) (s : Locks) : Locks :=
  { s with tickets := s.tickets.filter (·.number ≠ number) }

/-- What callers do with locks. -/
inductive Move where
  | request (chain : String)
  | grant (number : Nat)
  | release (number : Nat)
  deriving DecidableEq

/-- Makes a move. -/
def move (s : Locks) : Move → Locks
  | .request chain => s.request chain
  | .grant number => s.grant number
  | .release number => s.release number

/-- Makes moves one after the other. -/
def moves (s : Locks) (ms : List Move) : Locks := ms.foldl move s

end Locks

end RuleFlow
