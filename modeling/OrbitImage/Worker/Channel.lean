import OrbitImage.Fault
/-!
Channels, one for each job: what the job sends, in order, and how much of it was received. Nothing
is lost on the way, and nothing can be received that was not sent.
-/
namespace OrbitImage

inductive Event (π α : Type)
  | progress (value : π)
  | finished (outcome : Except Fault α)

structure Channel (π α : Type) where
  sent : Array (Event π α) := #[]
  received : Nat := 0
  hasSender : Bool := true
  hasReceiver : Bool := true

namespace Channel

variable {π α : Type}

/-- Without a receiver there is nobody to send to. -/
def send (c : Channel π α) (event : Event π α) : Channel π α :=
  if c.hasReceiver then { c with sent := c.sent.push event } else c

/-- The sender goes; what was sent can still be received. -/
def close (c : Channel π α) : Channel π α :=
  { c with hasSender := false }

def forget (c : Channel π α) : Channel π α :=
  { c with hasReceiver := false }

def next? (c : Channel π α) : Option (Event π α) :=
  c.sent[c.received]?

/-- The channel after its first event not yet received. -/
def pass (c : Channel π α) : Channel π α :=
  { c with received := c.received + 1 }

def unread (c : Channel π α) : Nat :=
  c.sent.size - c.received

/-- Nothing is left to receive, now or later. -/
def isOver (c : Channel π α) : Bool :=
  !c.hasSender && c.next?.isNone

end Channel

end OrbitImage
