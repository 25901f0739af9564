import Http3Framing.FramedStream.Basic

/-! Writing a framed stream. Bytes are passed on as they are: nothing compares them with the
length of a header. A number above the range of the wire is refused before anything is written
and leaves the stream usable. -/

namespace Http3Framing.FramedStream

open FramingM

/-- One write of the transport, and how many bytes it accepted. -/
def write (bytes : List UInt8) : FramingM Nat := do
  ask Position.usable
  let n ← exchange (Transport.write bytes)
  count (·.recordWrite n)
  return n

/-- All of the bytes; they are counted when the last one is accepted. -/
def writeAll (bytes : List UInt8) : FramingM Unit := do
  ask Position.usable
  let flavour := (← get).flavour
  exchange (Transport.writeAll flavour bytes)
  count (·.recordWrite bytes.length)

def flush : FramingM Unit := do
  ask Position.usable
  exchange Transport.flush

/-- The value of a computation on numbers, or its failure. -/
def encoded (bytes : Except Failure (List UInt8)) : FramingM (List UInt8) :=
  match bytes with
  | .ok bytes => return bytes
  | .error f => fail f

def writeVarint (n : Nat) : FramingM Unit := do
  ask Position.usable
  let bytes ← encoded ((Varint.checked n).map Varint.encode)
  writeAll bytes

def writeHeader (header : Frame.Header) : FramingM Unit := do
  ask Position.usable
  let bytes ← encoded header.encode
  writeAll bytes
  count Stats.recordFrameWritten

/-- A header with the length of the payload, then the payload. -/
def writeFrame (kind : Frame.Kind) (payload : List UInt8) : FramingM Unit := do
  writeHeader ⟨kind, payload.length⟩
  writeAll payload

end Http3Framing.FramedStream
