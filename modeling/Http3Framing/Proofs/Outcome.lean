import Http3Framing.Proofs.Charging
import Http3Framing.Proofs.Sending
import Http3Framing.Proofs.Speaking

/-! How an operation comes out, over any transport and for a caller of any patience. On a usable stream
it is a misuse that changes nothing, opens or closes a frame, reads or writes; a poisoned stream stays
as it is. So what is reported and where the stream stands afterwards always go together: only the
failures that lose the place of the next frame poison it, and a success moves it in the few ways that
`Operation.Step` lists. -/

namespace Http3Framing

namespace Failure

/-- The failures of a call that does not fit the stream or the wire. -/
def isMisuse : Failure → Bool
  | frame (.nestedHeader _) | frame (.frameNotConsumed _) | frame .noActiveFrame
  | integerTooLarge _ => true
  | _ => false

theorem not_poisons_of_isMisuse {f : Failure} (h : f.isMisuse) : ¬ f.poisons := by
  cases f with
  | frame v => cases v <;> simp_all [isMisuse, poisons, Violation.losesPlace]
  | integerTooLarge n => simp [poisons]
  | _ => simp [isMisuse] at h

end Failure

namespace FramedStream

open FramingM

/-- The value that an operation gave, or why it gave none. -/
def Result.outcome : Result → Except Stop Reply
  | .ok reply => .ok reply
  | .stopped stop => .error stop

namespace Operation

/-- All that the operation has to write: nothing if it is refused. -/
def bytes : Operation → List UInt8
  | write bytes | writeAll bytes => bytes
  | writeVarint n => match Varint.checked n with
    | .ok v => v.encode
    | .error _ => []
  | writeHeader header => match header.encode with
    | .ok bytes => bytes
    | .error _ => []
  | writeFrame kind payload => frameBytes (kind, payload)
  | _ => []

/-- What the operation has put out when it gives this reply. -/
def puts : Operation → Reply → List UInt8
  | write bytes, .count n => bytes.take n
  | o, .done => o.bytes
  | _, _ => []

/-- The frame headers among the bytes of the operation. -/
def frames : Operation → Nat
  | writeHeader _ | writeFrame .. => 1
  | _ => 0

/-- The number that the operation cannot encode, the first one if there are two. -/
def excess? : Operation → Option Nat
  | writeVarint n => if 2 ^ 62 ≤ n then some n else none
  | writeHeader header => header.excess?
  | writeFrame kind payload => Frame.Header.excess? ⟨kind, payload.length⟩
  | _ => none

/-- The replies of the writing side: how many bytes were taken, where a part of them may be left. -/
def Gives : Operation → Reply → Prop
  | write bytes, reply => ∃ n ≤ bytes.length, reply = .count n
  | _, reply => reply = .done

/-- What a write has put out when it fails: a beginning of its bytes, of which the first part is counted
and the second is not. Only what was to put out nothing can have put out all, and only the header of a
frame is counted. -/
structure Cut (o : Operation) (whole part : List UInt8) : Prop where
  begins : whole ++ part <+: o.bytes
  proper : whole ++ part = o.bytes → o = flush ∨ o = write []
  counted : whole = [] ∨ ∃ kind payload, o = writeFrame kind payload ∧
    Frame.Header.encode ⟨kind, payload.length⟩ = .ok whole

/-- The number of bytes that the operation has consumed for its caller when it gives this reply. An
integer stands for the bytes of one of its forms. -/
def Takes : Operation → Reply → Nat → Prop
  | readPayload, .payload bytes, n => n = bytes.length
  | readByte, .byte _, n => n = 1
  | readVarint, .integer v, n => ∃ form, v.Form form ∧ form.length = n
  | read _, .count k, n => n = k
  | readExact buffer, .done, n => n = buffer.length
  | _, _, _ => False

/-- The bytes that the operation counts ahead of their arrival. -/
def ahead : Operation → Nat
  | readByte | readVarint | readHeader => 1
  | _ => 0

def buffer? : Operation → Option (List UInt8)
  | read buffer | readExact buffer => some buffer
  | _ => none

/-- The breach made by an operation that does not fit where the stream stands. -/
def misuse? : Operation → Position → Option Violation
  | readHeader, .inFrame remaining => some (.nestedHeader remaining)
  | readPayload, .idle | closeFrame, .idle => some .noActiveFrame
  | closeFrame, .inFrame (remaining + 1) => some (.frameNotConsumed (remaining + 1))
  | _, _ => none

end Operation

/-- What an operation did on `s`, with the report and the stream that it left. -/
inductive Did (o : Operation) (s : FramedStream) : Report × FramedStream → Prop
  | misused {v : Violation} (breach : o.misuse? s.position = some v) :
    Did o s (⟨.stopped (.failed (.frame v)), none⟩, s)
  | opened {header : Frame.Header} {s₁ : FramedStream} {made : List Call} (is : o = .readHeader)
    (before : s.position = .idle) (listens : Listens s s₁ made) :
    Did o s (⟨.ok (.header header), none⟩, { s₁ with
      position := .inFrame header.len
      stats := s₁.stats.recordFrameRead
      events := s₁.events.push (.headerRead header) })
  | closed (is : o = .closeFrame) (before : s.position = .inFrame 0) :
    Did o s (⟨.ok .done, none⟩, { s with position := .idle, events := s.events.push .frameClosed })
  | read {r : Report} {s' : FramedStream} {made : List Call} (reads : o.sends = false)
    (fits : o.misuse? s.position = none) (listens : Listens s s' made)
    (ended : Ended o.Takes o.ahead True s s' made r.result.outcome)
    (buffer : r.result = .stopped (.failed .endOfStream) → r.buffer = o.buffer?) : Did o s (r, s')
  | sent {r : Report} {s' : FramedStream} {made : List Call} (sends : o.sends)
    (speaks : Speaks s s' made)
    (spoken : Spoken (fun reply out => o.Gives reply ∧ out = o.puts reply) o.Cut
      (fun n => o.excess? = some n) o.frames s s' made r.result.outcome) : Did o s (r, s')

section

variable {o : Operation} {s : FramedStream}

theorem did_of_charges {α : Type} {size : α → Nat → Prop} {clean : Prop} {x : FramingM α}
    {reply : α → Reply} (h : Charges size o.ahead clean s (x s)) (ho : o.sends = false)
    (hf : o.misuse? s.position = none) (hb : o.buffer? = none)
    (ht : ∀ a n, size a n → o.Takes (reply a) n) :
    Did o s (report reply x s) := by
  unfold report
  cases hx : x s with
  | ok a s' =>
    rw [hx] at h
    obtain ⟨made, hl, he⟩ := h
    cases he with
    | done counted took arrived => exact .read ho hf hl (.done counted (ht a _ took) arrived) nofun
  | error stop s' =>
    rw [hx] at h
    obtain ⟨made, hl, he⟩ := h
    exact .read ho hf hl (he.of_error fun _ => trivial) fun _ => hb.symm

theorem did_of_says {α : Type} {told : α → List UInt8 → Prop}
    {cut : List UInt8 → List UInt8 → Prop} {large : Nat → Prop} {x : FramingM α} {reply : α → Reply}
    (h : Says told cut large o.frames s (x s)) (ho : o.sends)
    (ht : ∀ a out, told a out → o.Gives (reply a) ∧ out = o.puts (reply a))
    (hc : ∀ whole part, cut whole part → o.Cut whole part)
    (hl : ∀ n, large n → o.excess? = some n) :
    Did o s (report reply x s) := by
  unfold report
  cases hx : x s with
  | ok a s' =>
    rw [hx] at h
    obtain ⟨made, hs, he⟩ := h
    cases he with
    | done put after stats => exact .sent ho hs (.done (ht a _ put) after stats)
  | error stop s' =>
    rw [hx] at h
    obtain ⟨made, hs, he⟩ := h
    exact .sent ho hs (he.of_error hc hl)

theorem did_readHeader (hu : s.position ≠ .poisoned) :
    Did .readHeader s (Operation.readHeader.perform s) := by
  simp only [Operation.perform, report]
  cases hp : s.position with
  | idle =>
    rcases charges_readHeader hp with ⟨header, s₁, made, hl, hx⟩ | ⟨stop, s', made, hx, hl, he⟩
    · rw [hx]
      exact .opened rfl hp hl
    · rw [hx]
      exact .read rfl (by rw [hp]; rfl) hl (he.of_error fun _ => trivial) fun _ => rfl
  | inFrame remaining =>
    have hx : FramedStream.readHeader s = .error (.failed (.frame (.nestedHeader remaining))) s :=
      bind_of_error (ask_of_error (by rw [hp]; rfl))
    rw [hx]
    exact .misused (by rw [hp]; rfl)
  | poisoned => exact absurd hp hu

theorem did_readPayload (hu : s.position ≠ .poisoned) :
    Did .readPayload s (Operation.readPayload.perform s) := by
  cases hp : s.position with
  | idle =>
    have hx : FramedStream.readPayload s = .error (.failed (.frame .noActiveFrame)) s :=
      bind_of_error (ask_of_error (by rw [hp]; rfl))
    simp only [Operation.perform, report, hx]
    exact .misused (by rw [hp]; rfl)
  | inFrame len =>
    exact did_of_charges (charges_readPayload hp) rfl (by rw [hp]; rfl) rfl
      fun _ _ h => h.1.trans h.2.symm
  | poisoned => exact absurd hp hu

theorem did_read (buffer : List UInt8) (hu : s.position ≠ .poisoned) :
    Did (.read buffer) s ((Operation.read buffer).perform s) := by
  have h := charges_readBlock buffer.length hu
  change Did _ s (reportBlock buffer s)
  unfold reportBlock
  cases hx : readBlock buffer.length s with
  | ok d s' =>
    rw [hx] at h
    obtain ⟨made, hl, he⟩ := h
    cases he with
    | done counted took arrived => exact .read rfl rfl hl (.done counted took.1.symm arrived) nofun
  | error stop s' =>
    rw [hx] at h
    obtain ⟨made, hl, he⟩ := h
    exact .read rfl rfl hl (he.of_error fun _ => trivial) fun _ => rfl

theorem did_readExact (buffer : List UInt8) (hu : s.position ≠ .poisoned) :
    Did (.readExact buffer) s ((Operation.readExact buffer).perform s) := by
  obtain ⟨⟨ds, stop⟩, s', made, hx, hl, he, hnone⟩ :=
    charges_readBlocks buffer.length buffer.length false s hu (Nat.le_refl _)
  change Did _ s (reportExact buffer s)
  unfold reportExact
  simp only [readExact_eq, hx]
  cases stop with
  | none =>
    cases he with
    | done counted took arrived => exact .read rfl rfl hl (.done counted took.1 arrived) nofun
  | some stop =>
    refine .read rfl rfl hl (he.of_error fun _ => trivial) ?_
    rintro ⟨⟩
    obtain rfl : ds = [] := hnone rfl
    rfl

theorem did_closeFrame (hu : s.position ≠ .poisoned) :
    Did .closeFrame s (Operation.closeFrame.perform s) := by
  simp only [Operation.perform, report]
  have hrefused {v : Violation} (hclose : s.position.close = .error v) :
      FramedStream.closeFrame s = .error (.failed (.frame v)) s :=
    bind_of_error (ask_of_error hclose)
  cases hp : s.position with
  | idle =>
    rw [hrefused (by rw [hp]; rfl)]
    exact .misused (by rw [hp]; rfl)
  | inFrame remaining =>
    cases remaining with
    | zero =>
      rw [closeFrame_of_exhausted hp]
      exact .closed rfl hp
    | succ remaining =>
      rw [hrefused (by rw [hp]; rfl)]
      exact .misused (by rw [hp]; rfl)
  | poisoned => exact absurd hp hu

/-- A part of bytes that all belong to the operation. -/
theorem Operation.Cut.of_short {bytes whole part : List UInt8} (hb : o.bytes = bytes)
    (h : Short bytes whole part) : o.Cut whole part := by
  obtain ⟨rfl, hbegins, hne⟩ := h
  subst hb
  exact ⟨hbegins, fun heq => absurd heq hne, .inl rfl⟩

theorem frameBytes_of_encode {kind : Frame.Kind} {payload header : List UInt8}
    (h : Frame.Header.encode ⟨kind, payload.length⟩ = .ok header) :
    frameBytes (kind, payload) = header ++ payload := by
  unfold frameBytes
  simp only [h]

theorem did_writeFrame (kind : Frame.Kind) (payload : List UInt8) (hu : s.position ≠ .poisoned) :
    Did (.writeFrame kind payload) s ((Operation.writeFrame kind payload).perform s) := by
  refine did_of_says (says_writeFrame kind payload hu) rfl ?_ ?_ fun _ h => h
  · rintro ⟨⟩ out ⟨header, hh, rfl⟩
    exact ⟨rfl, (frameBytes_of_encode hh).symm⟩
  · rintro whole part ⟨header, hh, ⟨rfl, hbegins, hne⟩ | ⟨rfl, hbegins, hne⟩⟩
    · have hbytes : (Operation.writeFrame kind payload).bytes = header ++ payload :=
        frameBytes_of_encode hh
      refine ⟨?_, fun heq => ?_, .inl rfl⟩
      · rw [hbytes]
        exact hbegins.trans (List.prefix_append header payload)
      · -- a part of the header that is all of the frame is all of the header
        rw [hbytes, List.nil_append] at heq
        have hle := hbegins.length_le
        have hlength := congrArg List.length heq
        rw [List.length_append] at hlength
        exact absurd (hbegins.eq_of_length (by omega)) hne
    · have hbytes : (Operation.writeFrame kind payload).bytes = whole ++ payload :=
        frameBytes_of_encode hh
      refine ⟨?_, fun heq => ?_, .inr ⟨kind, payload, rfl, hh⟩⟩
      · rw [hbytes]
        exact (List.prefix_append_right_inj whole).2 hbegins
      · rw [hbytes] at heq
        exact absurd (List.append_cancel_left heq) hne

/-- On a usable stream an operation is misused, opens or closes a frame, reads or writes. -/
theorem did_perform (o : Operation) (hu : s.position ≠ .poisoned) : Did o s (o.perform s) := by
  cases o with
  | readHeader => exact did_readHeader hu
  | readPayload => exact did_readPayload hu
  | readByte => exact did_of_charges (charges_readByte hu) rfl rfl rfl fun _ _ h => h
  | readVarint => exact did_of_charges (charges_readVarint hu) rfl rfl rfl fun _ _ h => h
  | read buffer => exact did_read buffer hu
  | readExact buffer => exact did_readExact buffer hu
  | closeFrame => exact did_closeFrame hu
  | write bytes =>
    refine did_of_says (says_write bytes hu) rfl (fun n _ h => ⟨⟨n, h.1, rfl⟩, h.2⟩) ?_
      fun _ => False.elim
    rintro whole part ⟨rfl, rfl⟩
    exact ⟨List.nil_prefix, fun h => .inr (congrArg Operation.write h.symm), .inl rfl⟩
  | writeAll bytes =>
    exact did_of_says (says_writeAll bytes hu) rfl (fun _ _ h => ⟨rfl, h⟩)
      (fun _ _ => .of_short rfl) fun _ => False.elim
  | flush =>
    refine did_of_says (says_flush hu) rfl (fun _ _ h => ⟨rfl, h⟩) ?_ fun _ => False.elim
    rintro whole part ⟨rfl, rfl⟩
    exact ⟨List.nil_prefix, fun _ => .inl rfl, .inl rfl⟩
  | writeVarint n =>
    have hbytes {v : Varint} (hv : Varint.checked n = .ok v) :
        (Operation.writeVarint n).bytes = v.encode := by
      simp only [Operation.bytes, hv]
    refine did_of_says (says_writeVarint n hu) rfl ?_ ?_ ?_
    · rintro ⟨⟩ out ⟨v, hv, rfl⟩
      exact ⟨rfl, (hbytes hv).symm⟩
    · rintro whole part ⟨v, hv, hshort⟩
      exact .of_short (hbytes hv) hshort
    · rintro m ⟨rfl, hle⟩
      exact if_pos hle
  | writeHeader header =>
    have hbytes {bytes : List UInt8} (hb : header.encode = .ok bytes) :
        (Operation.writeHeader header).bytes = bytes := by
      simp only [Operation.bytes, hb]
    refine did_of_says (says_writeHeader header hu) rfl ?_ ?_ fun _ h => h
    · rintro ⟨⟩ out hb
      exact ⟨rfl, (hbytes hb).symm⟩
    · rintro whole part ⟨bytes, hb, hshort⟩
      exact .of_short (hbytes hb) hshort
  | writeFrame kind payload => exact did_writeFrame kind payload hu

/-- A caller that waits is never dropped and leaves no patience behind. -/
theorem Did.waiting {r : Report} {s' : FramedStream} (h : Did o s (r, s')) (hw : s.patience = none) :
    s'.patience = none ∧ r.result ≠ .stopped .dropped := by
  cases h with
  | misused => exact ⟨hw, nofun⟩
  | opened _ _ listens => exact ⟨listens.waiting hw, nofun⟩
  | closed => exact ⟨hw, nofun⟩
  | read _ _ listens ended =>
    refine ⟨listens.waiting hw, fun hr => ?_⟩
    rw [hr] at ended
    cases ended with
    | dropped _ impatient => exact impatient hw
  | sent _ speaks spoken =>
    refine ⟨speaks.waiting hw, fun hr => ?_⟩
    rw [hr] at spoken
    cases spoken with
    | dropped impatient => exact impatient hw

/-- A poisoned stream stays as it is and says that it is poisoned, if it is asked for anything. -/
theorem perform_of_poisoned (o : Operation) (hp : s.position = .poisoned) :
    ∃ r, o.perform s = (r, s) ∧ (r.result = .stopped (.failed (.frame .poisoned)) ∨
      o = .readExact [] ∧ r.result = .ok .done) := by
  have hask {α : Type} {question : Position → Except Violation α}
      (h : question .poisoned = .error .poisoned) :
      ask question s = .error (.failed (.frame .poisoned)) s :=
    ask_of_error (by rw [hp, h])
  have hreport {α : Type} {x : FramingM α} (reply : α → Reply)
      (hx : x s = .error (.failed (.frame .poisoned)) s) : ∃ r, report reply x s = (r, s) ∧
        (r.result = .stopped (.failed (.frame .poisoned)) ∨
          o = .readExact [] ∧ r.result = .ok .done) := by
    refine ⟨⟨.stopped (.failed (.frame .poisoned)), none⟩, ?_, .inl rfl⟩
    simp only [report, hx]
  cases o with
  | readHeader => exact hreport _ (bind_of_error (hask rfl))
  | readPayload => exact hreport _ (bind_of_error (hask rfl))
  | readByte => exact hreport _ (readByte_of_poisoned hp)
  | readVarint => exact hreport _ (bind_of_error (readByte_of_poisoned hp))
  | read buffer =>
    refine ⟨⟨.stopped (.failed (.frame .poisoned)), some buffer⟩, ?_, .inl rfl⟩
    simp only [Operation.perform, reportBlock, readBlock_of_poisoned _ hp]
  | readExact buffer =>
    cases buffer with
    | nil =>
      refine ⟨⟨.ok .done, some []⟩, ?_, .inr ⟨rfl, rfl⟩⟩
      simp only [Operation.perform, reportExact, readExact_eq]
      rfl
    | cons b bs =>
      have hblock := readBlock_of_poisoned (b :: bs).length hp
      refine ⟨⟨.stopped (.failed (.frame .poisoned)), some (b :: bs)⟩, ?_, .inl rfl⟩
      have hblocks : readBlocks (b :: bs).length (b :: bs).length false s =
          .ok ([], some (.failed (.frame .poisoned))) s := bind_of_ok (attempt_of_error hblock)
      simp only [Operation.perform, reportExact, readExact_eq, hblocks, Delivery.overlay_nil]
  | closeFrame => exact hreport _ (bind_of_error (hask rfl))
  | write bytes => exact hreport _ (bind_of_error (hask rfl))
  | writeAll bytes => exact hreport _ (bind_of_error (hask rfl))
  | flush => exact hreport _ (bind_of_error (hask rfl))
  | writeVarint n => exact hreport _ (bind_of_error (hask rfl))
  | writeHeader header => exact hreport _ (bind_of_error (hask rfl))
  | writeFrame kind payload => exact hreport _ (bind_of_error (bind_of_error (hask rfl)))

theorem request_of_poisoned (r : Request) (hp : s.position = .poisoned) :
    ∃ report, r.perform s = (report, { s with patience := none }) ∧
      (report.result = .stopped (.failed (.frame .poisoned)) ∨
        r.operation = .readExact [] ∧ report.result = .ok .done) := by
  obtain ⟨report, hx, hreport⟩ := perform_of_poisoned
    (s := { s with patience := s.flavour.patience r.patience }) r.operation hp
  refine ⟨report, ?_, hreport⟩
  simp only [Request.perform, hx]

/-- Only filling no buffer succeeds on any stream. -/
theorem usable_of_ok {request : Request} {reply : Reply}
    (h : (request.perform s).1.result = .ok reply) (ho : request.operation ≠ .readExact []) :
    s.position ≠ .poisoned := by
  intro hp
  obtain ⟨report, hx, hreport⟩ := request_of_poisoned request hp
  rw [hx] at h
  rcases hreport with h' | ⟨h', -⟩
  · rw [h'] at h
    cases h
  · exact ho h'

/-- A request is its operation for a caller of its patience; afterwards nobody waits. -/
theorem did_request (r : Request) (hu : s.position ≠ .poisoned) :
    ∃ s₁, Did r.operation { s with patience := s.flavour.patience r.patience } ((r.perform s).1, s₁) ∧
      (r.perform s).2 = { s₁ with patience := none } :=
  ⟨_, did_perform r.operation hu, rfl⟩

end

/-! ### Results and positions -/

/-- How an operation that succeeded with this reply, having consumed `n` bytes, moves the position. -/
inductive Operation.Step : Operation → Reply → Nat → Position → Position → Prop
  | opened (header : Frame.Header) (n : Nat) :
    Step .readHeader (.header header) n .idle (.inFrame header.len)
  | closed : Step .closeFrame .done 0 (.inFrame 0) .idle
  | took {o : Operation} {reply : Reply} {n remaining : Nat} (takes : o.Takes reply n)
    (le : n ≤ remaining) : Step o reply n (.inFrame remaining) (.inFrame (remaining - n))
  | between {o : Operation} {reply : Reply} {n : Nat} (takes : o.Takes reply n) :
    Step o reply n .idle .idle
  | sent {o : Operation} {reply : Reply} (sends : o.sends) (p : Position) : Step o reply 0 p p

section

variable {o : Operation} {s s' : FramedStream} {r : Report}

theorem Operation.isMisuse_of_misuse? {p : Position} {v : Violation} (h : o.misuse? p = some v) :
    (Failure.frame v).isMisuse := by
  unfold Operation.misuse? at h
  split at h
  all_goals
    cases h
    try rfl

theorem Operation.Step.ne_poisoned {reply : Reply} {n : Nat} {p q : Position}
    (h : o.Step reply n p q) (hp : p ≠ .poisoned) : q ≠ .poisoned := by
  cases h with
  | sent => exact hp
  | _ => nofun

/-- Only a frame that owes nothing is closed. -/
theorem Operation.Step.of_closeFrame {reply : Reply} {n : Nat} {p q : Position}
    (h : Step .closeFrame reply n p q) : p = .inFrame 0 := by
  cases h with
  | closed => rfl
  | took takes => cases takes
  | between takes => cases takes
  | sent sends => cases sends

/-- A header that was read opens its frame. -/
theorem Operation.Step.of_readHeader {header : Frame.Header} {n : Nat} {p q : Position}
    (h : Step .readHeader (.header header) n p q) : q = .inFrame header.len := by
  cases h with
  | opened => rfl
  | took takes => cases takes
  | between takes => cases takes
  | sent sends => cases sends

/-- A success moves the position by what was consumed. -/
theorem Did.step {reply : Reply} (h : Did o s (r, s')) (hr : r.result = .ok reply) :
    ∃ n, o.Step reply n s.position s'.position ∧ (s.transport.Honest →
      s'.transport.delivered.length = s.transport.delivered.length + n) := by
  cases h with
  | misused => cases hr
  | @opened header s₁ made is before listens =>
    cases hr
    subst is
    refine ⟨(made.flatMap Call.delivered).length, before ▸ .opened header _, fun _ => ?_⟩
    rw [← List.length_append]
    exact congrArg List.length listens.delivered
  | closed is before =>
    cases hr
    subst is
    exact ⟨0, before ▸ .closed, fun _ => rfl⟩
  | read _ _ listens ended =>
    rw [hr] at ended
    cases ended with
    | @done _ n counted took arrived =>
      refine ⟨n, ?_, fun hs => ?_⟩
      · cases hp : s.position with
        | idle =>
          rw [hp] at counted
          have hq : s'.position = .idle := (Except.ok.inj counted).symm
          exact hq ▸ .between took
        | inFrame remaining =>
          rw [hp] at counted
          obtain ⟨hle, hq⟩ := Position.le_of_consume_inFrame counted
          exact hq ▸ .took took hle
        | poisoned =>
          rw [hp] at counted
          cases counted
      · rw [listens.delivered, List.length_append, arrived hs]
  | sent sends speaks spoken =>
    rw [hr] at spoken
    cases spoken with
    | done put after stats =>
      exact ⟨0, after ▸ .sent sends _, fun _ => congrArg List.length speaks.delivered⟩

/-- A failure is a misuse that changes nothing, or it poisons the stream, or it is the end of the
stream between frames, met before anything was read. -/
theorem Did.failure_cases {f : Failure} (h : Did o s (r, s')) (hr : r.result = .stopped (.failed f)) :
    (f.isMisuse ∧ s' = s) ∨ (f.poisons ∧ s'.position = .poisoned) ∨
      f = .endOfStream ∧ s.position = .idle ∧ s'.position = .idle ∧ s'.stats = s.stats ∧
        s'.transport.delivered = s.transport.delivered ∧
        s'.transport.unread = s.transport.unread ∧ r.buffer = o.buffer? := by
  cases h with
  | misused breach =>
    cases hr
    exact .inl ⟨Operation.isMisuse_of_misuse? breach, rfl⟩
  | opened => cases hr
  | closed => cases hr
  | read _ _ listens ended buffer =>
    rw [hr] at ended
    cases ended with
    | poisoned poisons after => exact .inr (.inl ⟨poisons, after⟩)
    | ended _ before after nothing =>
      have hnone := Call.flatMap_delivered_of_claimed nothing
      refine .inr (.inr ⟨rfl, before, after, ?_, ?_, ?_, buffer hr⟩)
      · rw [listens.stats, nothing, Stats.recordRead_zero]
      · rw [listens.delivered, hnone, List.append_nil]
      · rw [listens.unread, hnone, List.nil_append]
  | sent sends speaks spoken =>
    rw [hr] at spoken
    cases spoken with
    | refused _ same => exact .inl ⟨rfl, same⟩
    | broken _ _ after => exact .inr (.inl ⟨rfl, after⟩)

/-- Only a transport that claims bytes it did not store can overrun a buffer. -/
theorem Did.dishonest {claimed room : Nat} (h : Did o s (r, s'))
    (hr : r.result = .stopped (.overrun claimed room)) : ¬ s.transport.Honest := by
  cases h with
  | misused => cases hr
  | opened => cases hr
  | closed => cases hr
  | read _ _ _ ended =>
    rw [hr] at ended
    cases ended with
    | overrun dishonest => exact dishonest
  | sent _ _ spoken =>
    rw [hr] at spoken
    cases spoken

/-- Result and position go together, for every operation of a caller that waits and over every
transport. A success leaves the stream usable and moves it only as `Operation.Step` says. A failure
poisons it exactly when it loses the place of the next frame; a misuse changes neither position nor
counters and makes no call; the end of the stream is reported only between frames, with everything as
it was. No operation on a usable stream reports that it is poisoned. -/
theorem result_fits_position (hu : s.position ≠ .poisoned) (o : Operation) :
    let r := (Request.perform ⟨o, none⟩ s).1
    let s' := (Request.perform ⟨o, none⟩ s).2
    (∀ reply, r.result = .ok reply → s'.position ≠ .poisoned ∧
      ∃ n, o.Step reply n s.position s'.position ∧ (s.transport.Honest →
        s'.transport.delivered.length = s.transport.delivered.length + n)) ∧
    (∀ f, r.result = .stopped (.failed f) →
      (s'.position = .poisoned ↔ f.poisons) ∧
      (f.isMisuse → s'.position = s.position ∧ s'.stats = s.stats ∧ s'.transport = s.transport) ∧
      (f = .endOfStream → s.position = .idle ∧ s'.position = .idle ∧ s'.stats = s.stats ∧
        s'.transport.delivered = s.transport.delivered ∧
        s'.transport.unread = s.transport.unread ∧ r.buffer = o.buffer?) ∧
      f ≠ .frame .poisoned) ∧
    r.result ≠ .stopped .dropped ∧
    (∀ claimed room, r.result = .stopped (.overrun claimed room) → ¬ s.transport.Honest) := by
  obtain ⟨s₁, hdid, hs₁⟩ := did_request ⟨o, none⟩ hu
  intro r s'
  have hs' : s' = { s₁ with patience := none } := hs₁
  have hwaits : s.flavour.patience none = none := by cases s.flavour <;> rfl
  rw [hs']
  refine ⟨fun reply hr => ?_, fun f hr => ?_, (hdid.waiting hwaits).2,
    fun claimed room hr => hdid.dishonest hr⟩
  · obtain ⟨n, hstep, hdelivered⟩ := hdid.step hr
    exact ⟨hstep.ne_poisoned hu, n, hstep, hdelivered⟩
  · rcases hdid.failure_cases hr with ⟨hmisuse, rfl⟩ | ⟨hpoisons, hp⟩ | ⟨rfl, hend⟩
    · have hsafe := Failure.not_poisons_of_isMisuse hmisuse
      refine ⟨⟨fun hp => absurd hp hu, fun h => absurd h hsafe⟩, fun _ => ⟨rfl, rfl, rfl⟩, ?_, ?_⟩
      · rintro rfl
        cases hmisuse
      · rintro rfl
        cases hmisuse
    · refine ⟨⟨fun _ => hpoisons, fun _ => hp⟩, ?_, ?_, ?_⟩
      · exact fun hmisuse => absurd hpoisons (Failure.not_poisons_of_isMisuse hmisuse)
      · rintro rfl
        cases hpoisons
      · rintro rfl
        cases hpoisons
    · refine ⟨⟨fun hp => ?_, nofun⟩, nofun, fun _ => hend, nofun⟩
      change s₁.position = .poisoned at hp
      rw [hend.2.1] at hp
      cases hp

/-- Between frames, the end of the stream behind the first byte of an integer of two. -/
theorem result_fits_position_cut : ∃ s : FramedStream, s.position = .idle ∧
    s.transport = .ofBytes [0x40] ∧
    (Request.perform ⟨.readVarint, none⟩ s).1.result =
      .stopped (.failed (.frame (.truncatedVarint 2))) ∧
    (Request.perform ⟨.readVarint, none⟩ s).2.position = .poisoned := by
  let s : FramedStream := { transport := .ofBytes [0x40] }
  have hr : (Request.perform ⟨.readVarint, none⟩ s).1.result =
      .stopped (.failed (.frame (.truncatedVarint 2))) := by decide +kernel
  have hu : s.position ≠ .poisoned := nofun
  obtain ⟨-, hfailure, -⟩ := result_fits_position hu .readVarint
  exact ⟨s, rfl, rfl, hr, (hfailure _ hr).1.2 rfl⟩

end

end FramedStream

end Http3Framing
