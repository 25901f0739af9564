import Http3Framing.FramedStream.Opening
import Http3Framing.FramedStream.Operation

/-! Walking along a stream, frame by frame: the header, the payload in one of four styles, and
the close, until something stops the walk. Frames that were written can be walked again. -/

namespace Http3Framing.FramedStream

open FramingM

/-- How a walk reads payloads. -/
inductive Style
  | whole
  | integers
  | bytes
  | blocks (size : Nat)
  deriving DecidableEq

/-- One successful read of a payload. -/
inductive Part
  | block (bytes : List UInt8)
  | byte (b : UInt8)
  | integer (v : Varint)
  deriving DecidableEq

/-- A header and what was read of its payload. -/
structure Entry where
  header : Frame.Header
  parts : List Part
  deriving DecidableEq

/-- The buffer with which the payload of a frame is begun. -/
def Style.buffer : Style → List UInt8
  | .blocks size => List.replicate size 0
  | _ => []

/-- One read of the payload in this style, and the buffer after it. All blocks of a payload go
into one buffer, so bytes that a claim left alone are those of the block before. -/
def readPart : Style → List UInt8 → FramingM (Part × List UInt8)
  | .whole, buffer => return (.block (← FramedStream.readPayload), buffer)
  | .integers, buffer => return (.integer (← FramedStream.readVarint), buffer)
  | .bytes, buffer => return (.byte (← FramedStream.readByte), buffer)
  | .blocks size, buffer => do
    let d ← readBlock size
    let buffer := Delivery.overlay [d] buffer
    return (.block (buffer.take d.count), buffer)

/-- Parts until the open frame owes nothing, and why they stopped short of it if they did. -/
def readParts (style : Style) : Nat → List UInt8 → FramingM (List Part × Option Stop)
  | 0, _ => return ([], none)
  | fuel + 1, buffer => do
    if (← get).remaining? = some 0 then return ([], none)
    match ← attempt (readPart style buffer) with
    | .error stop => return ([], some stop)
    | .ok (part, buffer) =>
      let (parts, stop) ← readParts style fuel buffer
      return (part :: parts, stop)

/-- The payload of the open frame. Every part uses up a byte or an event of the script. -/
def readWith (style : Style) : FramingM (List Part × Option Stop) := do
  match style with
  | .whole =>
    match ← attempt (readPart .whole []) with
    | .error stop => return ([], some stop)
    | .ok (part, _) => return ([part], none)
  | style => readParts style ((← get).transport.weight + 1) style.buffer

/-- Entries until something stops the walk. -/
def walkWithin (style : Style) : Nat → FramingM (List Entry × Option Stop)
  | 0 => return ([], none)
  | fuel + 1 => do
    match ← attempt FramedStream.readHeader with
    | .error stop => return ([], some stop)
    | .ok header =>
      let (parts, stop) ← readWith style
      if let some stop := stop then return ([⟨header, parts⟩], some stop)
      match ← attempt FramedStream.closeFrame with
      | .error stop => return ([⟨header, parts⟩], some stop)
      | .ok () =>
        let (entries, stop) ← walkWithin style fuel
        return (⟨header, parts⟩ :: entries, stop)

/-- The entries of the stream and what stopped the walk. Every header uses up a byte or an event
of the script, so the walk always finds its stop. -/
def walk (style : Style) : FramingM (List Entry × Option Stop) := do
  walkWithin style ((← get).transport.weight + 1)

/-- Requests that write these frames one after the other. -/
def writing (frames : List (Frame.Kind × List UInt8)) : List Request :=
  frames.map fun frame => ⟨.writeFrame frame.1 frame.2, none⟩

/-- A fresh stream with the same limits that reads what this one has written. -/
def readingBack (s : FramedStream) : FramedStream :=
  ofTransport s.flavour s.limits (.ofBytes s.transport.output)

end Http3Framing.FramedStream
