import Http3Framing.Failure.Cause

/-! A transport as a script. Reads, writes and flushes meet their events in order, each side
independent of the others; what the transport was asked and what it answered is kept as the list
of its calls. A transport may deliver less than was asked for, interrupt, fail, end the stream,
not be ready, or claim bytes that it did not store. -/

namespace Http3Framing

/-- What one read put into the buffer it was given. -/
inductive Delivery
  | stored (bytes : List UInt8)
  /-- The transport counted `n` bytes and stored none. -/
  | claimed (n : Nat)
  deriving DecidableEq

namespace Delivery

/-- The number of bytes that the transport said it delivered. -/
def count : Delivery → Nat
  | stored bytes => bytes.length
  | claimed n => n

def bytes : Delivery → List UInt8
  | stored bytes => bytes
  | claimed _ => []

/-- The old content of a buffer after deliveries into it, one behind the other. -/
def overlay : List Delivery → List UInt8 → List UInt8
  | [], old => old
  | stored bytes :: more, old => bytes ++ overlay more (old.drop bytes.length)
  | claimed n :: more, old => old.take n ++ overlay more (old.drop n)

@[simp] theorem overlay_nil (old : List UInt8) : overlay [] old = old := rfl

theorem overlay_stored (bss : List (List UInt8)) (old : List UInt8) :
    overlay (bss.map stored) old = bss.flatten ++ old.drop bss.flatten.length := by
  induction bss generalizing old with
  | nil => simp
  | cons bs bss ih => simp [overlay, ih]

end Delivery

/-- An answer of the transport. -/
inductive Poll (α : Type)
  | ready (value : α)
  | failed (cause : Cause)
  | pending
  deriving DecidableEq

/-- A call that the transport received, with its answer. -/
inductive Call
  | read (want : Nat) (answer : Poll Delivery)
  | write (offered : List UInt8) (answer : Poll Nat)
  | flush (answer : Poll Unit)
  deriving DecidableEq

namespace Call

/-- The bytes that a call brought in. -/
def delivered : Call → List UInt8
  | read _ (.ready d) => d.bytes
  | _ => []

/-- The bytes that a call took out. -/
def accepted : Call → List UInt8
  | write offered (.ready n) => offered.take n
  | _ => []

end Call

namespace Transport

inductive ReadEvent
  /-- Bytes that stay until they are used up. -/
  | data (bytes : List UInt8)
  /-- One read of no bytes. -/
  | finish
  | failure (cause : Cause)
  | claim (n : Nat)
  | pending
  deriving DecidableEq

inductive WriteEvent
  | accept (n : Nat)
  | acceptAll
  | failure (cause : Cause)
  | pending
  deriving DecidableEq

inductive FlushEvent
  | finish
  | failure (cause : Cause)
  | pending
  deriving DecidableEq

namespace ReadEvent

/-- The bytes that an event still holds. -/
def bytes : ReadEvent → List UInt8
  | data bytes => bytes
  | _ => []

/-- The most reads that an event can answer. -/
def weight : ReadEvent → Nat
  | data bytes => bytes.length
  | _ => 1

end ReadEvent

end Transport

/-- The events to come, the most bytes that one read delivers, and the calls so far. -/
structure Transport where
  reads : List Transport.ReadEvent := []
  chunk : Option Nat := none
  writes : List Transport.WriteEvent := []
  flushes : List Transport.FlushEvent := []
  calls : Array Call := #[]
  deriving DecidableEq

namespace Transport

instance : Inhabited Transport := ⟨{}⟩

/-- A transport that delivers these bytes, as many at a time as are asked for. -/
def ofBytes (bytes : List UInt8) : Transport := { reads := [.data bytes] }

/-- The bytes that have not been read. -/
def unread (t : Transport) : List UInt8 := t.reads.flatMap ReadEvent.bytes

/-- The bytes that have been read. -/
def delivered (t : Transport) : List UInt8 := t.calls.toList.flatMap Call.delivered

/-- The bytes that have been accepted. -/
def output (t : Transport) : List UInt8 := t.calls.toList.flatMap Call.accepted

/-- The most reads that the script can answer before it is used up. -/
def weight (t : Transport) : Nat := (t.reads.map ReadEvent.weight).sum

/-- More events at the end of the read side. -/
def inject (t : Transport) (events : List ReadEvent) : Transport :=
  { t with reads := t.reads ++ events }

/-- The calls after the first `n`. -/
def callsSince (t : Transport) (n : Nat) : List Call := t.calls.toList.drop n

end Transport

end Http3Framing
