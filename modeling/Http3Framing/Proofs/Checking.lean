import Http3Framing.FramedStream.Operation

/-! The stream as a machine of words and buffers runs it. Every step that is partial there is checked: a
difference, a sum or a narrowing has to fit into its word, a part of a buffer has to end within the buffer,
a buffer has to be of a size that can be set aside, a loop has to end, and what a step takes for granted has
to hold. A step that fails its check is a fault and ends the run. All else is left to the stream itself, and
buffers are their sizes as they are there. -/

namespace Http3Framing

/-- Why the machine cannot go on. -/
inductive Fault
  /-- More was to be taken away than there is. -/
  | underflow
  /-- A number is too large for its word. -/
  | overflow
  /-- A part of a buffer ends behind its end. -/
  | outOfBounds
  /-- No buffer can be this large. -/
  | capacity
  /-- Something that is taken for granted does not hold. -/
  | assertion
  /-- A loop goes on after as many rounds as it can need. -/
  | endless
  deriving DecidableEq

/-- An action whose partial steps are checked: a fault, or what an action on a stream comes to. -/
def CheckedM (α : Type) : Type := FramedStream → Except Fault (EStateM.Result Stop FramedStream α)

namespace CheckedM

variable {α β : Type}

/-- One action after another: a stop ends both, and so does a fault. -/
protected def bind (x : CheckedM α) (f : α → CheckedM β) : CheckedM β := fun s =>
  match x s with
  | .ok (.ok a s) => f a s
  | .ok (.error stop s) => .ok (.error stop s)
  | .error fault => .error fault

instance : Monad CheckedM where
  pure a := fun s => .ok (.ok a s)
  bind := CheckedM.bind

theorem bind_of_ok {x : CheckedM α} {s s' : FramedStream} {a : α} (h : x s = .ok (.ok a s'))
    (f : α → CheckedM β) : (x >>= f) s = f a s' := by
  change CheckedM.bind x f s = _
  unfold CheckedM.bind
  rw [h]

theorem bind_of_error {x : CheckedM α} {s s' : FramedStream} {stop : Stop}
    (h : x s = .ok (.error stop s')) (f : α → CheckedM β) : (x >>= f) s = .ok (.error stop s') := by
  change CheckedM.bind x f s = _
  unfold CheckedM.bind
  rw [h]

/-- An action of the stream in which nothing is partial. -/
def lift (x : FramingM α) : CheckedM α := fun s => .ok (x s)

/-- A step that looks at no stream. -/
def check (x : Except Fault α) : CheckedM α := fun s => x.map (.ok · s)

/-- What is made of the outcome of `x`, by an action that only looks at the outcome. -/
def through (f : FramingM α → FramingM β) (x : CheckedM α) : CheckedM β := fun s =>
  (x s).map fun outcome => f (fun _ => outcome) s

end CheckedM

/-- The header that an event tells of. -/
def Event.header? : Event → Option Frame.Header
  | headerRead header => some header
  | _ => none

/-- The header that was read last. -/
def FramedStream.lastHeader? (s : FramedStream) : Option Frame.Header :=
  (s.events.toList.filterMap Event.header?).getLast?

namespace Checked

open CheckedM FramingM

variable {α : Type}

/-! ### Words and buffers -/

/-- Takes for granted that `p` holds. -/
def assert (p : Prop) [Decidable p] : Except Fault Unit :=
  if p then .ok () else .error .assertion

/-- The number in a word of so many bits. -/
def fit (bits n : Nat) : Except Fault Nat :=
  if n < 2 ^ bits then .ok n else .error .overflow

def add (a b : Nat) : Except Fault Nat := fit 64 (a + b)

def sub (a b : Nat) : Except Fault Nat :=
  if b ≤ a then .ok (a - b) else .error .underflow

/-- The size of the part of a buffer before `n`. -/
def before (n size : Nat) : Except Fault Nat :=
  if n ≤ size then .ok n else .error .outOfBounds

/-- The size of the part of a buffer behind `n`. -/
def behind (n size : Nat) : Except Fault Nat :=
  if n ≤ size then .ok (size - n) else .error .outOfBounds

/-- A size that can be set aside: a buffer has fewer than `2 ^ 63` bytes. -/
def allocate (size : Nat) : Except Fault Nat :=
  if size < 2 ^ 63 then .ok size else .error .capacity

/-- A loop that has to have come to its end. -/
def halted (p : Prop) [Decidable p] : Except Fault Unit :=
  if p then .ok () else .error .endless

section

variable {p : Prop} [Decidable p] {bits a b n size : Nat}

theorem ok_bind {α β : Type} (a : α) (f : α → Except Fault β) : (Except.ok a >>= f) = f a := rfl

theorem assert_of (h : p) : assert p = .ok () := if_pos h

theorem halted_of (h : p) : halted p = .ok () := if_pos h

theorem fit_of_lt (h : n < 2 ^ bits) : fit bits n = .ok n := if_pos h

theorem add_of_lt (h : a + b < 2 ^ 64) : add a b = .ok (a + b) := if_pos h

theorem sub_of_le (h : b ≤ a) : sub a b = .ok (a - b) := if_pos h

theorem before_of_le (h : n ≤ size) : before n size = .ok n := if_pos h

theorem behind_of_le (h : n ≤ size) : behind n size = .ok (size - n) := if_pos h

theorem allocate_of_lt (h : size < 2 ^ 63) : allocate size = .ok size := if_pos h

end

/-! ### Integers -/

/-- An integer of which `seen` bytes out of `len` have arrived. -/
structure Decoder where
  value : Nat
  len : Nat
  seen : Nat

namespace Decoder

def start (first : UInt8) : Decoder := ⟨first.toNat &&& 0x3f, 1 <<< (first.toNat >>> 6), 1⟩

/-- Only an integer that is not complete can be continued, and no bit is shifted out of its word. -/
def push (d : Decoder) (b : UInt8) : Except Fault Decoder := do
  assert (d.seen ≠ d.len)
  let high ← fit 64 (d.value <<< 8)
  let seen ← add d.seen 1
  return ⟨high ||| b.toNat, d.len, seen⟩

/-- Only a complete integer has a value, which is taken to be in range. -/
def finish (d : Decoder) : Except Fault Varint := do
  assert (d.seen = d.len)
  if h : d.value < 2 ^ 62 then return ⟨d.value, h⟩ else .error .assertion

end Decoder

/-- An array that is written from the front, and how many bytes of it are left. -/
structure Cursor where
  written : List UInt8
  left : Nat

namespace Cursor

/-- An array of zeros of which nothing is written. -/
def blank (size : Nat) : Cursor := ⟨[], size⟩

def put (c : Cursor) (bytes : List UInt8) : Except Fault Cursor := do
  let left ← behind bytes.length c.left
  return ⟨c.written ++ bytes, left⟩

/-- The array as it stands. -/
def array (c : Cursor) : List UInt8 := c.written ++ List.replicate c.left 0

/-- Writes the shortest form: the bits of the width over those of the value, which is narrowed to as many
bytes. -/
def encode (c : Cursor) (v : Varint) : Except Fault Cursor := do
  let low ← fit (8 * v.size) v.toNat
  c.put (BigEndian.bytes v.size (v.width.tag <<< v.width.bits ||| low))

end Cursor

/-- An integer in an array of the largest size, and its own size. -/
def block (v : Varint) : Except Fault (List UInt8 × Nat) := do
  let c ← (Cursor.blank Varint.maxSize).encode v
  return (c.array, v.size)

/-- A header in an array of the largest size, and its own size. -/
def headerBlock (kind len : Varint) : Except Fault (List UInt8 × Nat) := do
  let c ← (Cursor.blank Frame.Header.maxSize).encode kind
  let c ← c.encode len
  let size ← add kind.size len.size
  return (c.array, size)

/-- The bytes of an array up to a size. -/
def slice (array : List UInt8) (size : Nat) : Except Fault (List UInt8) := do
  let n ← before size array.length
  return array.take n

/-- Whether a kind is reserved, which is told with its header. -/
def isReserved (k : Frame.Kind) : Except Fault Bool :=
  if 0x21 ≤ k.code then do
    let n ← sub k.code 0x21
    return n % 0x1f == 0
  else return false

/-! ### Position and counters -/

/-- Counts `n` bytes against the open frame. -/
def consume (n : Nat) : CheckedM Unit := fun s =>
  match s.position with
  | .idle => .ok (.ok () s)
  | .inFrame remaining =>
    if remaining < n then lift (poison (.frame (.limitExceeded n remaining))) s
    else do
      let remaining ← sub remaining n
      return .ok () { s with position := .inFrame remaining }
  | .poisoned => lift (poison (.frame .poisoned)) s

/-- The end of the stream, met by a read of which `counted` bytes are already counted. What an open frame
is told to miss is no more than its header announced. -/
def ended (counted : Nat) : CheckedM α := fun s =>
  match s.position with
  | .inFrame remaining => do
    let missing ← add remaining counted
    assert (∃ header ∈ s.lastHeader?, missing ≤ header.len)
    lift (poison (.frame (.truncatedFrame missing))) s
  | _ => lift (fail .endOfStream) s

/-- A frame can be opened only between frames. -/
def openFrame (header : Frame.Header) : CheckedM Unit := fun s => do
  assert (s.position = .idle)
  lift (FramedStream.openFrame header) s

/-- Adds `n` to one of the counters. -/
def count (counter : Stats → UInt64) (record : Stats → Stats) (n : Nat) : CheckedM Unit := fun s => do
  let _ ← add (counter s.stats).toNat n
  lift (FramingM.count record) s

/-! ### Reading -/

def readOnce (want : Nat) : CheckedM Delivery := do
  let d ← lift (exchange (Transport.read true want))
  count Stats.bytesRead (·.recordRead d.count) d.count
  return d

def readByte : CheckedM UInt8 := do
  lift (ask Position.usable)
  consume 1
  let d ← readOnce 1
  if d.count = 0 then ended 1
  return FramedStream.firstByte d

/-- A block is read into the part of the buffer that stays inside the open frame. -/
def readBlock (room : Nat) : CheckedM Delivery := do
  lift (ask Position.usable)
  if room = 0 then return .stored []
  let want ← lift (ask fun p => .ok (p.cap room))
  if want = 0 then
    consume room
    return .stored []
  let part ← check (before want room)
  let d ← readOnce part
  if d.count = 0 then ended 0
  consume d.count
  return d

def nextBlock (started : Bool) (room : Nat) : CheckedM Delivery :=
  if started then through (endBreaks (.truncatedFrame room)) (readBlock room) else readBlock room

/-- Goes on with the part of the buffer behind each block. -/
def readBlocks : Nat → Nat → Bool → CheckedM (List Delivery × Option Stop)
  | 0, room, _ => do
    check (halted (room = 0))
    return ([], none)
  | fuel + 1, room, started =>
    if room = 0 then return ([], none) else do
    match ← through attempt (nextBlock started room) with
    | .error stop => return ([], some stop)
    | .ok d =>
      let rest ← check (behind d.count room)
      let (more, stop) ← readBlocks fuel rest true
      return (d :: more, stop)

/-- Counts what is filled; `left` is the part of the buffer behind it and what is told to be missing. -/
def readFilling (size : Nat) : Nat → Nat → CheckedM (List Delivery × Option Stop)
  | 0, filled => do
    check (halted (size ≤ filled))
    return ([], none)
  | fuel + 1, filled =>
    if size ≤ filled then return ([], none) else do
    let left ← check (behind filled size)
    match ← through attempt (nextBlock (0 < filled) left) with
    | .error stop => return ([], some stop)
    | .ok d =>
      let filled ← check (add filled d.count)
      let (more, stop) ← readFilling size fuel filled
      return (d :: more, stop)

def readExact (room : Nat) : CheckedM (List Delivery × Option Stop) := do
  match (← lift get).flavour with
  | .blocking => readBlocks room room false
  | .suspending _ => readFilling room room 0

/-- The rest of an integer, byte by byte. -/
def readMissing : Nat → Decoder → CheckedM Varint
  | 0, d => do
    check (halted (d.seen = d.len))
    check d.finish
  | fuel + 1, d =>
    if d.seen = d.len then check d.finish else do
    let b ← through (endBreaks (.truncatedVarint d.len)) readByte
    let d ← check (d.push b)
    readMissing fuel d

def readVarint : CheckedM Varint := do
  let first ← readByte
  readMissing Varint.maxSize (.start first)

def readHeader : CheckedM Frame.Header := do
  lift (ask Position.betweenFrames)
  let kind ← readVarint
  let len ← through (endBreaks .truncatedHeader) readVarint
  let header : Frame.Header := ⟨.ofVarint kind, len.toNat⟩
  openFrame header
  count Stats.framesRead Stats.recordFrameRead 1
  let _ ← check (isReserved header.kind)
  lift (emit (.headerRead header))
  return header

/-- The next step in which a payload of `len` bytes is read, with `filled` of them in the buffer. It is
taken not to lead beyond the payload. -/
def readStep (l : Limits) (filled len : Nat) : Except Fault Nat := do
  let left ← sub len filled
  let step := min left (max (max filled l.initialBuffer) 1)
  assert (filled + step ≤ len)
  return step

/-- The size of the buffer behind the next step. -/
def resize (l : Limits) (filled len : Nat) : Except Fault Nat := do
  let step ← readStep l filled len
  let size ← add filled step
  allocate size

/-- Resizes the buffer and fills what is new of it, until it is as large as the payload. -/
def readRounds (l : Limits) (len : Nat) : Nat → Nat → CheckedM (List Delivery)
  | 0, filled => do
    check (halted (len ≤ filled))
    return []
  | fuel + 1, filled =>
    if len ≤ filled then return [] else do
    let size ← check (resize l filled len)
    let step ← check (behind filled size)
    let (ds, stop) ← readExact step
    match stop with
    | some stop => lift (throw stop)
    | none => return ds ++ (← readRounds l len fuel size)

def readPayload : CheckedM (List UInt8) := do
  let len ← lift (ask Position.owed)
  let limits := (← lift get).limits
  if limits.maxPayload < len then
    lift (poison (.frame (.payloadTooLarge len limits.maxPayload)))
  let first ← check (readStep limits 0 len)
  let _ ← check (allocate first)
  let ds ← readRounds limits len len 0
  return Delivery.overlay ds (List.replicate len 0)

/-! ### Writing -/

def write (bytes : List UInt8) : CheckedM Nat := do
  lift (ask Position.usable)
  let n ← lift (exchange (Transport.write bytes))
  count Stats.bytesWritten (·.recordWrite n) n
  return n

def writeAll (bytes : List UInt8) : CheckedM Unit := do
  lift (ask Position.usable)
  let flavour := (← lift get).flavour
  lift (exchange (Transport.writeAll flavour bytes))
  count Stats.bytesWritten (·.recordWrite bytes.length) bytes.length

/-- The number as an integer of the wire, unless it is refused. -/
def inRange (n : Nat) : FramingM Varint :=
  match Varint.checked n with
  | .ok v => return v
  | .error f => fail f

def writeVarint (n : Nat) : CheckedM Unit := do
  lift (ask Position.usable)
  let v ← lift (inRange n)
  let (array, size) ← check (block v)
  let bytes ← check (slice array size)
  writeAll bytes

def writeHeader (header : Frame.Header) : CheckedM Unit := do
  lift (ask Position.usable)
  let kind ← lift (inRange header.kind.code)
  let len ← lift (inRange header.len)
  let (array, size) ← check (headerBlock kind len)
  let bytes ← check (slice array size)
  writeAll bytes
  count Stats.framesWritten Stats.recordFrameWritten 1

def writeFrame (kind : Frame.Kind) (payload : List UInt8) : CheckedM Unit := do
  writeHeader ⟨kind, payload.length⟩
  writeAll payload

/-! ### Requests -/

def report (reply : α → FramedStream.Reply) (x : CheckedM α) (s : FramedStream) :
    Except Fault (FramedStream.Report × FramedStream) :=
  (x s).map fun outcome => FramedStream.report reply (fun _ => outcome) s

def reportBlock (buffer : List UInt8) (s : FramedStream) :
    Except Fault (FramedStream.Report × FramedStream) := do
  match ← readBlock buffer.length s with
  | .ok d s => return (⟨.ok (.count d.count), some (Delivery.overlay [d] buffer)⟩, s)
  | .error stop s => return (⟨.stopped stop, some buffer⟩, s)

def reportExact (buffer : List UInt8) (s : FramedStream) :
    Except Fault (FramedStream.Report × FramedStream) := do
  match ← readExact buffer.length s with
  | .ok (ds, stop) s =>
    return (⟨match stop with
      | none => .ok .done
      | some stop => .stopped stop, some (Delivery.overlay ds buffer)⟩, s)
  | .error stop s => return (⟨.stopped stop, some buffer⟩, s)

def perform : FramedStream.Operation → FramedStream →
    Except Fault (FramedStream.Report × FramedStream)
  | .readHeader, s => report .header readHeader s
  | .readPayload, s => report .payload readPayload s
  | .readByte, s => report .byte readByte s
  | .readVarint, s => report .integer readVarint s
  | .read buffer, s => reportBlock buffer s
  | .readExact buffer, s => reportExact buffer s
  | .closeFrame, s => report (fun _ => .done) (lift FramedStream.closeFrame) s
  | .write bytes, s => report .count (write bytes) s
  | .writeAll bytes, s => report (fun _ => .done) (writeAll bytes) s
  | .flush, s => report (fun _ => .done) (lift FramedStream.flush) s
  | .writeVarint n, s => report (fun _ => .done) (writeVarint n) s
  | .writeHeader header, s => report (fun _ => .done) (writeHeader header) s
  | .writeFrame kind payload, s => report (fun _ => .done) (writeFrame kind payload) s

def request (r : FramedStream.Request) (s : FramedStream) :
    Except Fault (FramedStream.Report × FramedStream) := do
  let (report, s) ← perform r.operation { s with patience := s.flavour.patience r.patience }
  return (report, { s with patience := none })

/-- The requests in order, with a report for each, unless one of them meets a fault. -/
def run : List FramedStream.Request → FramedStream →
    Except Fault (List FramedStream.Report × FramedStream)
  | [], s => return ([], s)
  | r :: rs, s => do
    let (report, s) ← request r s
    let (reports, s) ← run rs s
    return (report :: reports, s)

end Checked

end Http3Framing
