import Http3Framing.Transport.Script

/-! Exchanges with a transport: one call, and the calls that follow it because the transport was
not ready, was interrupted or took only a part. Each function goes along the events of one side
and says which calls were made, which events are left and how the exchange ended. A caller that
suspends may lose patience while the transport is not ready and drop the exchange; the calls made
until then stay made. -/

namespace Http3Framing

/-- How the callers of a transport wait. To insist is to try again when the write of a whole block was
interrupted. A blocking caller does so. A suspending one has the block written by a library, which is
documented to report the interruption, `suspending false`, but was seen to insist in its runs; what is
shown of streams holds of both. -/
inductive Flavour
  | blocking
  | suspending (insists : Bool := true)
  deriving DecidableEq

def Flavour.insists : Flavour → Bool
  | blocking => true
  | suspending insists => insists

/-- The name under which a stream of this flavour is shown. -/
def Flavour.streamName : Flavour → String
  | blocking => "Framer"
  | suspending _ => "AsyncFramer"

/-- Which pending answer makes the caller give up, the first being number one. Without a number,
or with number zero, no answer does. -/
abbrev Patience := Option Nat

/-- The patience left after a pending answer; nothing when the caller gives up at it. -/
def Patience.spend : Patience → Option Patience
  | none => some none
  | some 0 => some (some 0)
  | some 1 => none
  | some (k + 2) => some (some (k + 1))

/-- Only a suspended caller can give up; a blocking one waits as long as it takes. -/
def Flavour.patience : Flavour → Patience → Patience
  | blocking, _ => none
  | suspending _, patience => patience

theorem Flavour.patience_none (flavour : Flavour) : flavour.patience none = none := by
  cases flavour <;> rfl

namespace Transport

inductive Answer (α : Type)
  | done (value : α)
  | failed (cause : Cause)
  | dropped
  deriving DecidableEq

structure Exchange (ε α : Type) where
  calls : List Call
  rest : List ε
  patience : Patience
  answer : Answer α

namespace Exchange

variable {ε α : Type}

/-- The exchange after a call that did not end it. -/
def after (call : Call) (x : Exchange ε α) : Exchange ε α :=
  { x with calls := call :: x.calls }

/-- A pending answer: the exchange goes on unless the patience is spent. -/
def wait (call : Call) (rest : List ε) (patience : Patience) (go : Patience → Exchange ε α) :
    Exchange ε α :=
  match patience.spend with
  | none => ⟨[call], rest, patience, .dropped⟩
  | some patience => (go patience).after call

end Exchange

/-- The most that one read delivers: never more than is wanted. -/
def portion (chunk : Option Nat) (want : Nat) : Nat :=
  match chunk with
  | none => want
  | some cap => min want cap

/-- A read into a buffer of `want` bytes. With `retry`, an interruption is no answer. An event
without bytes left is passed over. -/
def readFrom (retry : Bool) (chunk : Option Nat) (want : Nat) :
    List ReadEvent → Patience → Exchange ReadEvent Delivery
  | [], patience =>
    ⟨[.read want (.ready (.stored []))], [], patience, .done (.stored [])⟩
  | .pending :: events, patience =>
    .wait (.read want .pending) events patience (readFrom retry chunk want events)
  | .failure cause :: events, patience =>
    let call := Call.read want (.failed cause)
    if retry && cause.kind = .interrupted then
      (readFrom retry chunk want events patience).after call
    else ⟨[call], events, patience, .failed cause⟩
  | .finish :: events, patience =>
    ⟨[.read want (.ready (.stored []))], events, patience, .done (.stored [])⟩
  | .claim n :: events, patience =>
    ⟨[.read want (.ready (.claimed n))], events, patience, .done (.claimed n)⟩
  | .data [] :: events, patience => readFrom retry chunk want events patience
  | .data (b :: bytes) :: events, patience =>
    let n := portion chunk want
    let d := Delivery.stored ((b :: bytes).take n)
    ⟨[.read want (.ready d)], .data ((b :: bytes).drop n) :: events, patience, .done d⟩

/-- One write of `offered`, of which any part may be accepted. -/
def writeTo (offered : List UInt8) : List WriteEvent → Patience → Exchange WriteEvent Nat
  | [], patience =>
    ⟨[.write offered (.ready offered.length)], [], patience, .done offered.length⟩
  | .pending :: events, patience =>
    .wait (.write offered .pending) events patience (writeTo offered events)
  | .failure cause :: events, patience =>
    ⟨[.write offered (.failed cause)], events, patience, .failed cause⟩
  | .acceptAll :: events, patience =>
    ⟨[.write offered (.ready offered.length)], events, patience, .done offered.length⟩
  | .accept n :: events, patience =>
    let n := min n offered.length
    ⟨[.write offered (.ready n)], events, patience, .done n⟩

/-- The cause given when the transport takes nothing of what is left to write. -/
def stall : Flavour → Cause
  | .blocking => .stalled
  | .suspending _ => .plain .writeZero

/-- Writes until all of `left` is accepted; nothing left makes no call. An interruption is a failure
unless the caller insists. -/
def writeAllTo (flavour : Flavour) :
    List WriteEvent → Patience → List UInt8 → Exchange WriteEvent Unit
  | events, patience, [] => ⟨[], events, patience, .done ()⟩
  | [], patience, left =>
    ⟨[.write left (.ready left.length)], [], patience, .done ()⟩
  | .pending :: events, patience, left =>
    .wait (.write left .pending) events patience fun patience =>
      writeAllTo flavour events patience left
  | .failure cause :: events, patience, left =>
    let call := Call.write left (.failed cause)
    if flavour.insists && cause.kind = .interrupted then
      (writeAllTo flavour events patience left).after call
    else ⟨[call], events, patience, .failed cause⟩
  | .acceptAll :: events, patience, left =>
    ⟨[.write left (.ready left.length)], events, patience, .done ()⟩
  | .accept n :: events, patience, left =>
    let n := min n left.length
    let call := Call.write left (.ready n)
    if n = 0 then ⟨[call], events, patience, .failed (stall flavour)⟩
    else (writeAllTo flavour events patience (left.drop n)).after call

/-- A flush. -/
def flushOf : List FlushEvent → Patience → Exchange FlushEvent Unit
  | [], patience => ⟨[.flush (.ready ())], [], patience, .done ()⟩
  | .pending :: events, patience =>
    .wait (.flush .pending) events patience (flushOf events)
  | .failure cause :: events, patience =>
    ⟨[.flush (.failed cause)], events, patience, .failed cause⟩
  | .finish :: events, patience => ⟨[.flush (.ready ())], events, patience, .done ()⟩

/-- How an exchange left the transport and its caller. -/
structure Outcome (α : Type) where
  answer : Answer α
  patience : Patience
  transport : Transport

/-- The transport after calls. -/
def record (t : Transport) (calls : List Call) : Transport :=
  { t with calls := t.calls ++ calls }

def read (retry : Bool) (want : Nat) (patience : Patience) (t : Transport) : Outcome Delivery :=
  if want = 0 then
    ⟨.done (.stored []), patience, t.record [.read 0 (.ready (.stored []))]⟩
  else
    let x := readFrom retry t.chunk want t.reads patience
    ⟨x.answer, x.patience, { t.record x.calls with reads := x.rest }⟩

def write (offered : List UInt8) (patience : Patience) (t : Transport) : Outcome Nat :=
  let x := writeTo offered t.writes patience
  ⟨x.answer, x.patience, { t.record x.calls with writes := x.rest }⟩

def writeAll (flavour : Flavour) (bytes : List UInt8) (patience : Patience) (t : Transport) :
    Outcome Unit :=
  let x := writeAllTo flavour t.writes patience bytes
  ⟨x.answer, x.patience, { t.record x.calls with writes := x.rest }⟩

def flush (patience : Patience) (t : Transport) : Outcome Unit :=
  let x := flushOf t.flushes patience
  ⟨x.answer, x.patience, { t.record x.calls with flushes := x.rest }⟩

end Transport

end Http3Framing
