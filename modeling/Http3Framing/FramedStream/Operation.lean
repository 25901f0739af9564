import Http3Framing.FramedStream.Reading
import Http3Framing.FramedStream.Writing

/-! The operations of a framed stream as data, what each of them answers, and runs of many. A
request is an operation together with the patience of its caller. -/

namespace Http3Framing.FramedStream

inductive Operation
  | readHeader
  | readPayload
  | readByte
  | readVarint
  /-- A block into a buffer with this content. -/
  | read (buffer : List UInt8)
  /-- As many bytes as the buffer has. -/
  | readExact (buffer : List UInt8)
  | closeFrame
  | write (bytes : List UInt8)
  | writeAll (bytes : List UInt8)
  | flush
  | writeVarint (n : Nat)
  | writeHeader (header : Frame.Header)
  | writeFrame (kind : Frame.Kind) (payload : List UInt8)
  deriving DecidableEq

/-- The operations of the writing side. -/
def Operation.sends : Operation → Bool
  | write _ | writeAll _ | flush | writeVarint _ | writeHeader _ | writeFrame .. => true
  | _ => false

/-- The value of an operation that succeeded. -/
inductive Reply
  | done
  | header (header : Frame.Header)
  | payload (bytes : List UInt8)
  | byte (b : UInt8)
  | integer (v : Varint)
  | count (n : Nat)
  deriving DecidableEq

inductive Result
  | ok (reply : Reply)
  | stopped (stop : Stop)
  deriving DecidableEq

/-- The result of an operation, and what it left in the buffer it was given, if any. -/
structure Report where
  result : Result
  buffer : Option (List UInt8) := none
  deriving DecidableEq

structure Request where
  operation : Operation
  patience : Patience := none
  deriving DecidableEq

/-- The requests of a caller that waits for every answer. -/
def unhurried (os : List Operation) : List Request := os.map fun o => ⟨o, none⟩

/-- The report of an action that has no buffer. -/
def report {α : Type} (reply : α → Reply) (x : FramingM α) (s : FramedStream) :
    Report × FramedStream :=
  match x s with
  | .ok a s => (⟨.ok (reply a), none⟩, s)
  | .error stop s => (⟨.stopped stop, none⟩, s)

/-- A block is stored at the front of the buffer; a failed read leaves the buffer as it was. -/
def reportBlock (buffer : List UInt8) (s : FramedStream) : Report × FramedStream :=
  match readBlock buffer.length s with
  | .ok d s => (⟨.ok (.count d.count), some (Delivery.overlay [d] buffer)⟩, s)
  | .error stop s => (⟨.stopped stop, some buffer⟩, s)

/-- The bytes that arrived are stored, whether or not they fill the buffer. -/
def reportExact (buffer : List UInt8) (s : FramedStream) : Report × FramedStream :=
  match FramedStream.readExact buffer.length s with
  | .ok (ds, stop) s =>
    (⟨match stop with
      | none => .ok .done
      | some stop => .stopped stop, some (Delivery.overlay ds buffer)⟩, s)
  | .error stop s => (⟨.stopped stop, some buffer⟩, s)

def Operation.perform : Operation → FramedStream → Report × FramedStream
  | .readHeader, s => report .header FramedStream.readHeader s
  | .readPayload, s => report .payload FramedStream.readPayload s
  | .readByte, s => report .byte FramedStream.readByte s
  | .readVarint, s => report .integer FramedStream.readVarint s
  | .read buffer, s => reportBlock buffer s
  | .readExact buffer, s => reportExact buffer s
  | .closeFrame, s => report (fun _ => .done) FramedStream.closeFrame s
  | .write bytes, s => report .count (FramedStream.write bytes) s
  | .writeAll bytes, s => report (fun _ => .done) (FramedStream.writeAll bytes) s
  | .flush, s => report (fun _ => .done) FramedStream.flush s
  | .writeVarint n, s => report (fun _ => .done) (FramedStream.writeVarint n) s
  | .writeHeader header, s => report (fun _ => .done) (FramedStream.writeHeader header) s
  | .writeFrame kind payload, s =>
    report (fun _ => .done) (FramedStream.writeFrame kind payload) s

/-- The patience of the caller lasts for one operation. -/
def Request.perform (r : Request) (s : FramedStream) : Report × FramedStream :=
  let (report, s) := r.operation.perform { s with patience := s.flavour.patience r.patience }
  (report, { s with patience := none })

/-- Between requests nobody waits, and a caller that waits for every answer leaves no patience
behind. -/
theorem Request.perform_none {o : Operation} {s : FramedStream} (h : s.patience = none)
    (h' : (o.perform s).2.patience = none) : Request.perform ⟨o, none⟩ s = o.perform s := by
  have hpatience : s.flavour.patience none = s.patience := by
    rw [h, Flavour.patience_none]
  unfold Request.perform
  simp only [hpatience]
  rw [← h']

/-- A request for an operation without a buffer is answered as the action is for a caller of this
patience. -/
theorem Request.perform_report {α : Type} {o : Operation} {x : FramingM α} {reply : α → Reply}
    (ho : o.perform = report reply x) (patience : Patience) (s : FramedStream) :
    Request.perform ⟨o, patience⟩ s =
      match x { s with patience := s.flavour.patience patience } with
      | .ok a s' => (⟨.ok (reply a), none⟩, { s' with patience := none })
      | .error stop s' => (⟨.stopped stop, none⟩, { s' with patience := none }) := by
  unfold Request.perform
  rw [ho]
  unfold report
  cases x { s with patience := s.flavour.patience patience } <;> rfl

/-- The requests in order, with a report for each. -/
def run : List Request → FramedStream → List Report × FramedStream
  | [], s => ([], s)
  | r :: rs, s =>
    let (report, s) := r.perform s
    let (reports, s) := run rs s
    (report :: reports, s)

@[simp] theorem run_nil (s : FramedStream) : run [] s = ([], s) := rfl

@[simp] theorem run_cons (r : Request) (rs : List Request) (s : FramedStream) :
    run (r :: rs) s =
      ((r.perform s).1 :: (run rs (r.perform s).2).1, (run rs (r.perform s).2).2) := rfl

theorem run_append (rs more : List Request) (s : FramedStream) :
    run (rs ++ more) s =
      ((run rs s).1 ++ (run more (run rs s).2).1, (run more (run rs s).2).2) := by
  induction rs generalizing s with
  | nil => rfl
  | cons r rs ih => simp [ih]

theorem length_run (rs : List Request) (s : FramedStream) :
    (run rs s).1.length = rs.length := by
  induction rs generalizing s with
  | nil => rfl
  | cons r rs ih => simp [ih]

end Http3Framing.FramedStream
