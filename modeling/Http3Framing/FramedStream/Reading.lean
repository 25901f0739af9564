import Http3Framing.FramedStream.Basic
import Http3Framing.Limits.Growth
import Http3Framing.Varint.Partial

/-! Reading a framed stream. No read asks the transport for bytes beyond the end of the open
frame. A single byte is counted before it is read; a block is cut at the end of the frame first
and counted when it has arrived. Integers, headers and payloads are made of these two. -/

namespace Http3Framing.FramedStream

open FramingM

/-- One read of the transport, tried again after interruptions. -/
def readOnce (want : Nat) : FramingM Delivery := do
  let d ← exchange (Transport.read true want)
  count (·.recordRead d.count)
  return d

/-- The byte that a delivery left in a buffer of one zero. -/
def firstByte (d : Delivery) : UInt8 := (Delivery.overlay [d] [0]).headD 0

def readByte : FramingM UInt8 := do
  ask Position.usable
  consume 1
  let d ← readOnce 1
  if d.count = 0 then ended 1
  return firstByte d

/-- A block of at most `room` bytes. Asking for more when the frame owes nothing crosses its
end; asking for nothing is always met. -/
def readBlock (room : Nat) : FramingM Delivery := do
  ask Position.usable
  if room = 0 then return .stored []
  let want ← ask fun p => .ok (p.cap room)
  if want = 0 then
    consume room
    return .stored []
  let d ← readOnce want
  if d.count = 0 then ended 0
  consume d.count
  return d

/-- A block towards filling `room` bytes. Once something has arrived, the end of the stream between
frames cuts the rest short. -/
def nextBlock (started : Bool) (room : Nat) : FramingM Delivery :=
  if started then endBreaks (.truncatedFrame room) (readBlock room) else readBlock room

/-- Blocks until `room` bytes have arrived, and why they stopped short of it if they did. Every
block has a byte or more, so `room` bounds their number. -/
def readBlocks : Nat → Nat → Bool → FramingM (List Delivery × Option Stop)
  | 0, _, _ => return ([], none)
  | fuel + 1, room, started =>
    if room = 0 then return ([], none) else do
    match ← attempt (nextBlock started room) with
    | .error stop => return ([], some stop)
    | .ok d =>
      if room < d.count then return ([d], some (.overrun d.count room))
      let (more, stop) ← readBlocks fuel (room - d.count) true
      return (d :: more, stop)

/-- The same for a caller that keeps its whole buffer of `size` bytes and counts how many of them
are filled. -/
def readFilling (size : Nat) : Nat → Nat → FramingM (List Delivery × Option Stop)
  | 0, _ => return ([], none)
  | fuel + 1, filled =>
    if size ≤ filled then return ([], none) else do
    let left := size - filled
    match ← attempt (nextBlock (0 < filled) left) with
    | .error stop => return ([], some stop)
    | .ok d =>
      if left < d.count then return ([d], some (.overrun d.count left))
      let (more, stop) ← readFilling size fuel (filled + d.count)
      return (d :: more, stop)

/-- Exactly `room` bytes, or those that arrived and why the others did not. A blocking caller
goes on with the part of its buffer that is still empty; a suspending one counts. -/
def readExact (room : Nat) : FramingM (List Delivery × Option Stop) := do
  match (← get).flavour with
  | .blocking => readBlocks room room false
  | .suspending _ => readFilling room room 0

/-- The bytes missing from an integer; the end of the stream before the last one cuts it. -/
def readMissing : (missing : Nat) → Varint.Partial missing → FramingM Varint
  | 0, p => return p.finish
  | missing + 1, p => do
    let b ← endBreaks (.truncatedVarint p.width.size) readByte
    readMissing missing (p.push b)

def readVarint : FramingM Varint := do
  let first ← readByte
  readMissing _ (Varint.Partial.start first)

/-- A header opens a frame that owes the length it gives. -/
def openFrame (header : Frame.Header) : FramingM Unit := fun s =>
  .ok () { s with position := .inFrame header.len }

def readHeader : FramingM Frame.Header := do
  ask Position.betweenFrames
  let kind ← readVarint
  let len ← endBreaks .truncatedHeader readVarint
  let header : Frame.Header := ⟨.ofVarint kind, len.toNat⟩
  openFrame header
  count Stats.recordFrameRead
  emit (.headerRead header)
  return header

/-- Resizes a buffer of which `filled` bytes are full and fills what is new of it, until it is as large
as a payload of `len` bytes. Each round adds a byte or more, so `len` bounds their number. -/
def readRounds (l : Limits) (len : Nat) : Nat → Nat → FramingM (List Delivery)
  | 0, _ => return []
  | fuel + 1, filled =>
    if len ≤ filled then return [] else do
    let size := filled + l.nextStep filled (len - filled)
    let (ds, stop) ← readExact (size - filled)
    match stop with
    | some stop => throw stop
    | none => return ds ++ (← readRounds l len fuel size)

/-- The whole payload that the open frame owes, in the rounds in which its buffer grows. A
payload above the limit is refused before any of it is read. -/
def readPayload : FramingM (List UInt8) := do
  let len ← ask Position.owed
  let limits := (← get).limits
  if limits.maxPayload < len then poison (.frame (.payloadTooLarge len limits.maxPayload))
  let ds ← readRounds limits len len 0
  return Delivery.overlay ds (List.replicate len 0)

/-- Closes the open frame without touching the transport. -/
def closeFrame : FramingM Unit := do
  let position ← ask Position.close
  modify fun s => { s with position }
  emit .frameClosed

end Http3Framing.FramedStream
