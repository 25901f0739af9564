import Http3Framing.Proofs.Fragmentation
import Http3Framing.Proofs.Poisoning

/-! The two sides of a stream do not interfere. A run is looked at from the reading side, with the
position, or from the writing side, and the operations of the other side are deleted from it. The
streams of the two runs stay alike on the side that is looked at: its operations match themselves, as
they see nothing of the other side but whether the stream is poisoned, and an operation of the other
side that does not poison the stream leaves the near side as it was. A misuse touches neither side. -/

namespace Http3Framing.FramedStream

open FramingM Transport

/-! ### What is seen of a run -/

/-- All that the reading side of a stream has come to, and what is left to read. -/
structure ReadingSide where
  position : Position
  bytesRead : UInt64
  framesRead : UInt64
  unread : List UInt8
  deriving DecidableEq

/-- All that the writing side of a stream has come to. -/
structure WritingSide where
  output : List UInt8
  bytesWritten : UInt64
  framesWritten : UInt64
  deriving DecidableEq

def readingSide (s : FramedStream) : ReadingSide :=
  ⟨s.position, s.stats.bytesRead, s.stats.framesRead, s.transport.unread⟩

def writingSide (s : FramedStream) : WritingSide :=
  ⟨s.transport.output, s.stats.bytesWritten, s.stats.framesWritten⟩

/-- An operation of a run with its report, and what was seen of the stream before and after it. -/
structure Moment (β : Type) where
  operation : Operation
  report : Report
  before : β
  after : β
  deriving DecidableEq

section

variable {β : Type}

/-- The operations of a caller that waits for every answer, one after the other, as `view` shows
them. -/
def trace (view : FramedStream → β) : List Operation → FramedStream → List (Moment β)
  | [], _ => []
  | o :: os, s =>
    let (report, s') := Request.perform ⟨o, none⟩ s
    ⟨o, report, view s, view s'⟩ :: trace view os s'

@[simp] theorem trace_nil (view : FramedStream → β) (s : FramedStream) : trace view [] s = [] := rfl

@[simp] theorem trace_cons (view : FramedStream → β) (o : Operation) (os : List Operation)
    (s : FramedStream) : trace view (o :: os) s =
      ⟨o, (Request.perform ⟨o, none⟩ s).1, view s, view (Request.perform ⟨o, none⟩ s).2⟩ ::
        trace view os (Request.perform ⟨o, none⟩ s).2 := rfl

theorem length_trace (view : FramedStream → β) (os : List Operation) (s : FramedStream) :
    (trace view os s).length = os.length := by
  induction os generalizing s with
  | nil => rfl
  | cons o os ih => rw [trace_cons, List.length_cons, ih, List.length_cons]

theorem trace_append (view : FramedStream → β) (os more : List Operation) (s : FramedStream) :
    trace view (os ++ more) s =
      trace view os s ++ trace view more (run (unhurried os) s).2 := by
  induction os generalizing s with
  | nil => rfl
  | cons o os ih => rw [List.cons_append, trace_cons, ih, trace_cons]; rfl

/-! ### Deleting operations -/

/-- If the operations that are kept go together on streams that `K` relates, and the others leave one of
them related to the other as it stands unless they poison it, then a run that does not end poisoned shows
at the kept operations what the run of these alone shows. -/
theorem trace_filter {K : FramedStream → FramedStream → Prop} {keep : Operation → Bool}
    {view : FramedStream → β} (hview : ∀ s s', K s s' → view s = view s')
    (hwaits : ∀ s s', K s s' → s.patience = none ∧ s'.patience = none)
    (hkept : ∀ o, keep o → ∀ s s', K s s' → Together K Eq (o.perform s) (o.perform s'))
    (hskipped : ∀ o, keep o = false → ∀ s s', K s s' →
      (Request.perform ⟨o, none⟩ s).2.position ≠ .poisoned → K (Request.perform ⟨o, none⟩ s).2 s')
    {os : List Operation} {s s' : FramedStream} (hs : K s s')
    (hp : (run (unhurried os) s).2.position ≠ .poisoned) :
    trace view (os.filter keep) s' = (trace view os s).filter (keep ·.operation) ∧
      K (run (unhurried os) s).2 (run (unhurried (os.filter keep)) s').2 := by
  induction os generalizing s s' with
  | nil => exact ⟨rfl, hs⟩
  | cons o os ih =>
    change (run (unhurried os) (Request.perform ⟨o, none⟩ s).2).2.position ≠ .poisoned at hp
    cases ho : keep o with
    | true =>
      obtain ⟨hreport, hm⟩ := (hkept o ho s s' hs).request hwaits hs
      obtain ⟨htrace, hend⟩ := ih hm hp
      rw [List.filter_cons_of_pos ho, trace_cons, trace_cons, List.filter_cons_of_pos (by exact ho),
        htrace, hreport, hview s s' hs, hview _ _ hm]
      exact ⟨rfl, hend⟩
    | false =>
      have hno : ¬ keep o = true := by simp [ho]
      -- poison is final, so a run that does not end poisoned has no step that poisons
      have hu : (Request.perform ⟨o, none⟩ s).2.position ≠ .poisoned := by
        intro h
        obtain ⟨⟨patience, hstays⟩, -⟩ := run_of_poisoned (unhurried os) h
        rw [hstays] at hp
        exact hp h
      obtain ⟨htrace, hend⟩ := ih (hskipped o ho s s' hs hu) hp
      rw [List.filter_cons_of_neg hno, trace_cons, List.filter_cons_of_neg (by exact hno), htrace]
      exact ⟨rfl, hend⟩

end

theorem did_unhurried {s : FramedStream} (o : Operation) (hw : s.patience = none)
    (hu : s.position ≠ .poisoned) : Did o s (Request.perform ⟨o, none⟩ s) := by
  have hdid := did_perform o hu
  rw [Request.perform_none hw (hdid.waiting hw).1]
  exact hdid

/-- An operation that leaves the stream usable has found it usable. -/
theorem did_of_usable {s : FramedStream} (o : Operation) (hw : s.patience = none)
    (hu : (Request.perform ⟨o, none⟩ s).2.position ≠ .poisoned) :
    s.position ≠ .poisoned ∧ Did o s (Request.perform ⟨o, none⟩ s) := by
  have hbefore : s.position ≠ .poisoned := by
    intro hp
    obtain ⟨report, hx, -⟩ := request_of_poisoned ⟨o, none⟩ hp
    rw [hx] at hu
    exact hu hp
  exact ⟨hbefore, did_unhurried o hw hbefore⟩

/-! ### The reading side -/

/-- Nothing that the reading side sees tells the streams apart, nor anything that it counts. -/
structure SameHearing (s s' : FramedStream) : Prop where
  position : s.position = s'.position
  limits : s.limits = s'.limits
  flavour : s.flavour = s'.flavour
  reads : s.transport.reads = s'.transport.reads
  chunk : s.transport.chunk = s'.transport.chunk
  bytesRead : s.stats.bytesRead = s'.stats.bytesRead
  framesRead : s.stats.framesRead = s'.stats.framesRead
  patience : s.patience = none
  patience' : s'.patience = none

instance : Pairing SameHearing where
  position h := h.position
  limits h := h.limits
  place _ h := ⟨rfl, h.limits, h.flavour, h.reads, h.chunk, h.bytesRead, h.framesRead, h.patience,
    h.patience'⟩
  count hf h := by
    refine ⟨h.position, h.limits, h.flavour, h.reads, h.chunk, ?_, ?_, h.patience, h.patience'⟩
    · cases hf with
      | read n => exact congrArg (· + UInt64.ofNat n) h.bytesRead
      | _ => exact h.bytesRead
    · cases hf with
      | frameRead => exact congrArg (· + 1) h.framesRead
      | _ => exact h.framesRead
  tell _ _ h := ⟨h.position, h.limits, h.flavour, h.reads, h.chunk, h.bytesRead, h.framesRead,
    h.patience, h.patience'⟩

theorem SameHearing.readingSide_eq {s s' : FramedStream} (h : SameHearing s s') :
    s.readingSide = s'.readingSide := by
  unfold readingSide Transport.unread
  rw [h.position, h.bytesRead, h.framesRead, h.reads]

/-- A read sees only the events of the reading side and the cap on them. -/
theorem echoes_read (want : Nat) {s s' : FramedStream} (h : SameHearing s s') :
    Echoes SameHearing Eq s s' (s.transport.read true want s.patience)
      (s'.transport.read true want s'.patience) := by
  rw [h.patience, h.patience']
  have hanswer : (s.transport.read true want none).answer =
      (s'.transport.read true want none).answer := by
    unfold Transport.read
    rw [h.reads, h.chunk]
    split <;> rfl
  have hreads : (s.transport.read true want none).transport.reads =
      (s'.transport.read true want none).transport.reads := by
    unfold Transport.read
    rw [h.reads, h.chunk]
    split
    · exact h.reads
    · rfl
  have hchunk (t : Transport) : (t.read true want none).transport.chunk = t.chunk := by
    unfold Transport.read
    split <;> rfl
  refine ⟨.inl hanswer, h.position, h.limits, h.flavour, hreads, ?_, h.bytesRead, h.framesRead,
    patience_read want _, patience_read want _⟩
  show (s.transport.read true want none).transport.chunk =
    (s'.transport.read true want none).transport.chunk
  rw [hchunk, hchunk, h.chunk]

theorem hearing_readOnce (want : Nat) : Steady SameHearing (readOnce want) :=
  .bind (matches_exchange (fun _ => rfl) fun _ _ => echoes_read want) fun d =>
    .bind (steady_count (.read _)) fun _ => steady_pure d

/-- A write that does not poison the stream leaves the reading side as it was. -/
theorem SameHearing.after_write {s s' s₁ : FramedStream} {o : Operation} {report : Report}
    (h : SameHearing s s') (hdid : Did o s (report, s₁)) (ho : o.sends = true)
    (hu : s₁.position ≠ .poisoned) : SameHearing s₁ s' := by
  cases hdid with
  | misused => exact h
  | opened is =>
    subst is
    cases ho
  | closed is =>
    subst is
    cases ho
  | read reads => cases reads.symm.trans ho
  | sent _ speaks spoken =>
    have hsame : s₁.position = s.position ∧ s₁.stats.bytesRead = s.stats.bytesRead ∧
        s₁.stats.framesRead = s.stats.framesRead := by
      generalize report.result.outcome = outcome at spoken
      cases spoken with
      | done _ after stats =>
        rw [after, stats]
        exact ⟨rfl, rfl, rfl⟩
      | refused _ same =>
        rw [same]
        exact ⟨rfl, rfl, rfl⟩
      | broken _ _ after => exact absurd after hu
      | dropped impatient => exact absurd h.patience impatient
    obtain ⟨hposition, hbytes, hframes⟩ := hsame
    exact ⟨hposition.trans h.position, speaks.limits.trans h.limits, speaks.flavour.trans h.flavour,
      speaks.reads.trans h.reads, speaks.chunk.trans h.chunk, hbytes.trans h.bytesRead,
      hframes.trans h.framesRead, speaks.waiting h.patience, h.patience'⟩

/-- Seen from the reading side, a run that does not end poisoned is the run of its reads. -/
theorem trace_reads {s : FramedStream} (hs : s.patience = none) {os : List Operation}
    (hp : (run (unhurried os) s).2.position ≠ .poisoned) :
    trace readingSide (os.filter (!·.sends)) s =
        (trace readingSide os s).filter (!·.operation.sends) ∧
      (run (unhurried (os.filter (!·.sends))) s).2.readingSide =
        (run (unhurried os) s).2.readingSide := by
  have hstart : SameHearing s s := ⟨rfl, rfl, rfl, rfl, rfl, rfl, rfl, hs, hs⟩
  have hkept (o : Operation) (ho : (!o.sends) = true) (s s' : FramedStream) (h : SameHearing s s') :
      Together SameHearing Eq (o.perform s) (o.perform s') :=
    together_reading (intakes_of_readOnce hearing_readOnce) (fun _ => rfl) h (by simpa using ho)
      fun buffer _ => steady_readBlock hearing_readOnce buffer.length
  have hskipped (o : Operation) (ho : (!o.sends) = false) (s s' : FramedStream)
      (h : SameHearing s s') (hu : (Request.perform ⟨o, none⟩ s).2.position ≠ .poisoned) :
      SameHearing (Request.perform ⟨o, none⟩ s).2 s' :=
    h.after_write (did_of_usable o h.patience hu).2 (by simpa using ho) hu
  obtain ⟨htrace, hend⟩ := trace_filter (fun _ _ h => h.readingSide_eq)
    (fun _ _ h => ⟨h.patience, h.patience'⟩) hkept hskipped hstart hp
  exact ⟨htrace, hend.readingSide_eq.symm⟩

/-! ### The writing side -/

/-- Nothing that the writing side sees tells the streams apart, nor anything that it puts out or
counts. -/
structure SameSpeaking (s s' : FramedStream) : Prop where
  usable : s.position.usable = s'.position.usable
  flavour : s.flavour = s'.flavour
  writes : s.transport.writes = s'.transport.writes
  flushes : s.transport.flushes = s'.transport.flushes
  output : s.transport.output = s'.transport.output
  bytesWritten : s.stats.bytesWritten = s'.stats.bytesWritten
  framesWritten : s.stats.framesWritten = s'.stats.framesWritten
  patience : s.patience = none
  patience' : s'.patience = none

instance : Peers SameSpeaking where
  usable h := h.usable
  spoil h := ⟨rfl, h.flavour, h.writes, h.flushes, h.output, h.bytesWritten, h.framesWritten,
    h.patience, h.patience'⟩
  count hf h := by
    refine ⟨h.usable, h.flavour, h.writes, h.flushes, h.output, ?_, ?_, h.patience, h.patience'⟩
    · cases hf with
      | write n => exact congrArg (· + UInt64.ofNat n) h.bytesWritten
      | _ => exact h.bytesWritten
    · cases hf with
      | frameWritten => exact congrArg (· + 1) h.framesWritten
      | _ => exact h.framesWritten
  tell _ _ h := ⟨h.usable, h.flavour, h.writes, h.flushes, h.output, h.bytesWritten,
    h.framesWritten, h.patience, h.patience'⟩

theorem SameSpeaking.writingSide_eq {s s' : FramedStream} (h : SameSpeaking s s') :
    s.writingSide = s'.writingSide := by
  unfold writingSide
  rw [h.output, h.bytesWritten, h.framesWritten]

theorem Beside.steady_speaking {α : Type} {talk : Patience → Transport → Outcome α}
    (h : Beside talk) : Steady SameSpeaking (exchange talk) := by
  apply matches_exchange fun _ => rfl
  intro s s' hs
  rw [hs.patience, hs.patience']
  obtain ⟨hanswer, hwrites, hflushes⟩ := h.same s.transport s'.transport hs.writes hs.flushes
  obtain ⟨out, hout, hout'⟩ := h.output s.transport s'.transport hs.writes hs.flushes
  have houtput : (talk none s.transport).transport.output =
      (talk none s'.transport).transport.output := by
    rw [hout, hout', hs.output]
  exact ⟨.inl hanswer, hs.usable, hs.flavour, hwrites, hflushes, houtput, hs.bytesWritten,
    hs.framesWritten, h.patience _, h.patience _⟩

theorem outlets_speaking : Outlets SameSpeaking Eq where
  write bytes := (beside_write bytes).steady_speaking
  writeAll bytes := by
    apply matches_writeAll fun _ => rfl
    intro s s' hs
    rw [hs.flavour]
    exact (beside_writeAll s'.flavour bytes).steady_speaking
  flush := beside_flush.steady_speaking

theorem SameSpeaking.hears {s s' s₁ : FramedStream} {made : List Call} (h : SameSpeaking s s')
    (hl : Listens s s₁ made) {p : Position} (hp : p.usable = s'.position.usable) :
    SameSpeaking { s₁ with position := p } s' where
  usable := hp
  flavour := hl.flavour.trans h.flavour
  writes := hl.writes.trans h.writes
  flushes := hl.flushes.trans h.flushes
  output := hl.output.trans h.output
  bytesWritten := by
    rw [hl.stats]
    exact h.bytesWritten
  framesWritten := by
    rw [hl.stats]
    exact h.framesWritten
  patience := hl.waiting h.patience
  patience' := h.patience'

/-- Reading or closing a frame leaves the writing side as it was, unless it poisons the stream. -/
theorem SameSpeaking.after_read {s s' s₁ : FramedStream} {o : Operation} {report : Report}
    (h : SameSpeaking s s') (hdid : Did o s (report, s₁)) (ho : o.sends = false)
    (hbefore : s.position ≠ .poisoned) (hafter : s₁.position ≠ .poisoned) : SameSpeaking s₁ s' := by
  have husable {p : Position} (hp : p ≠ .poisoned) : p.usable = s'.position.usable := by
    rw [← h.usable, Position.usable_eq hp, Position.usable_eq hbefore]
  cases hdid with
  | misused => exact h
  | opened _ _ listens =>
    have hh := h.hears listens (husable hafter)
    exact ⟨hh.usable, hh.flavour, hh.writes, hh.flushes, hh.output, hh.bytesWritten,
      hh.framesWritten, hh.patience, hh.patience'⟩
  | closed =>
    have hh := h.hears (.refl s) (husable hafter)
    exact ⟨hh.usable, hh.flavour, hh.writes, hh.flushes, hh.output, hh.bytesWritten,
      hh.framesWritten, hh.patience, hh.patience'⟩
  | read _ _ listens => exact h.hears listens (husable hafter)
  | sent sends => cases ho.symm.trans sends

/-- Seen from the writing side, a run that does not end poisoned is the run of its writes. -/
theorem trace_writes {s : FramedStream} (hs : s.patience = none) {os : List Operation}
    (hp : (run (unhurried os) s).2.position ≠ .poisoned) :
    trace writingSide (os.filter (·.sends)) s =
        (trace writingSide os s).filter (·.operation.sends) ∧
      (run (unhurried (os.filter (·.sends))) s).2.writingSide =
        (run (unhurried os) s).2.writingSide := by
  have hstart : SameSpeaking s s := ⟨rfl, rfl, rfl, rfl, rfl, rfl, rfl, hs, hs⟩
  have hkept (o : Operation) (ho : o.sends = true) (s s' : FramedStream) (h : SameSpeaking s s') :
      Together SameSpeaking Eq (o.perform s) (o.perform s') := by
    apply together_writing outlets_speaking (fun _ => rfl) (fun _ => rfl) _ h ho
    rintro stop _ rfl
    rfl
  have hskipped (o : Operation) (ho : o.sends = false) (s s' : FramedStream)
      (h : SameSpeaking s s') (hu : (Request.perform ⟨o, none⟩ s).2.position ≠ .poisoned) :
      SameSpeaking (Request.perform ⟨o, none⟩ s).2 s' := by
    obtain ⟨hbefore, hdid⟩ := did_of_usable o h.patience hu
    exact h.after_read hdid ho hbefore hu
  obtain ⟨htrace, hend⟩ := trace_filter (fun _ _ h => h.writingSide_eq)
    (fun _ _ h => ⟨h.patience, h.patience'⟩) hkept hskipped hstart hp
  exact ⟨htrace, hend.writingSide_eq.symm⟩

/-! ### Misuses -/

theorem patience_run (rs : List Request) {s : FramedStream} (hs : s.patience = none) :
    (run rs s).2.patience = none := by
  induction rs generalizing s with
  | nil => exact hs
  | cons r rs ih => exact ih (s := (r.perform s).2) rfl

/-- A misuse leaves everything as it was. -/
theorem request_of_misuse {s : FramedStream} {o : Operation} {f : Failure} (hs : s.patience = none)
    (hr : (Request.perform ⟨o, none⟩ s).1.result = .stopped (.failed f)) (hf : f.isMisuse) :
    (Request.perform ⟨o, none⟩ s).2 = s := by
  by_cases hp : s.position = .poisoned
  · obtain ⟨report, hx, -⟩ := request_of_poisoned ⟨o, none⟩ hp
    rw [hx, ← hs]
  rcases (did_unhurried o hs hp).failure_cases hr with ⟨-, hsame⟩ | ⟨hpoisons, -⟩ | ⟨rfl, -⟩
  · exact hsame
  · exact absurd hpoisons (Failure.not_poisons_of_isMisuse hf)
  · cases hf

/-- A misuse can be left out of a run, and every other step stays what it is. -/
theorem trace_eraseIdx {s : FramedStream} (hs : s.patience = none) (before : List Operation)
    (o : Operation) (after : List Operation) {f : Failure}
    (hr : (Request.perform ⟨o, none⟩ (run (unhurried before) s).2).1.result =
      .stopped (.failed f)) (hf : f.isMisuse) :
    trace id (before ++ after) s = (trace id (before ++ o :: after) s).eraseIdx before.length := by
  have hsame := request_of_misuse (patience_run (unhurried before) hs) hr hf
  rw [trace_append, trace_append, trace_cons, hsame,
    List.eraseIdx_append_of_length_le (Nat.le_of_eq (length_trace id before s)), length_trace,
    Nat.sub_self, List.eraseIdx_cons_zero]

/-! ### Both sides -/

/-- Reading and writing do not interfere. Take a run of a caller that waits for every answer, reads,
writes and closes of frames in any order, that does not end poisoned. The run of its reads and closes
alone gives the same reports at these, with the same positions, the same counters of the reading side and
the same bytes left to read before and after each; the run of its writes and flushes alone gives the same
reports at those, with the same output and the same counters of the writing side. Without an operation
that was misused, an integer out of range among them, everything else is as it was. -/
theorem sides_do_not_interfere {s : FramedStream} (hs : s.patience = none) {os : List Operation}
    (hp : (run (unhurried os) s).2.position ≠ .poisoned) :
    let reads := os.filter (!·.sends)
    let writes := os.filter (·.sends)
    trace readingSide reads s = (trace readingSide os s).filter (!·.operation.sends) ∧
    (run (unhurried reads) s).2.readingSide = (run (unhurried os) s).2.readingSide ∧
    trace writingSide writes s = (trace writingSide os s).filter (·.operation.sends) ∧
    (run (unhurried writes) s).2.writingSide = (run (unhurried os) s).2.writingSide ∧
    ∀ before o after f, os = before ++ o :: after →
      (Request.perform ⟨o, none⟩ (run (unhurried before) s).2).1.result = .stopped (.failed f) →
      f.isMisuse → trace id (before ++ after) s = (trace id os s).eraseIdx before.length := by
  intro reads writes
  obtain ⟨hreads, hreading⟩ := trace_reads hs hp
  obtain ⟨hwrites, hwriting⟩ := trace_writes hs hp
  refine ⟨hreads, hreading, hwrites, hwriting, ?_⟩
  rintro before o after f rfl hr hf
  exact trace_eraseIdx hs before o after hr hf

/-- A frame is written while another is read, and on the way an integer is out of range, a header is
nested, a close comes early and a payload is asked for between frames. -/
theorem sides_do_not_interfere_misused : ∃ (s : FramedStream) (os : List Operation),
    os = [.writeVarint (2 ^ 62), .readHeader, .writeHeader ⟨.data, 1⟩, .closeFrame, .readByte,
      .readHeader, .writeAll [7], .flush, .readByte, .closeFrame, .readPayload] ∧
    s.transport = .ofBytes [0, 2, 0xaa, 0xbb, 0xcc] ∧
    (run (unhurried [.readHeader, .closeFrame, .readByte, .readHeader, .readByte, .closeFrame,
      .readPayload]) s).2.readingSide = ⟨.idle, 4, 1, [0xcc]⟩ ∧
    (run (unhurried [.writeVarint (2 ^ 62), .writeHeader ⟨.data, 1⟩, .writeAll [7], .flush])
      s).2.writingSide = ⟨[0, 1, 7], 3, 1⟩ ∧
    trace id os.tail s = (trace id os s).tail := by
  let s : FramedStream := ofTransport .blocking .standard (.ofBytes [0, 2, 0xaa, 0xbb, 0xcc])
  let os : List Operation :=
    [.writeVarint (2 ^ 62), .readHeader, .writeHeader ⟨.data, 1⟩, .closeFrame, .readByte,
      .readHeader, .writeAll [7], .flush, .readByte, .closeFrame, .readPayload]
  have hp : (run (unhurried os) s).2.position ≠ .poisoned := by decide +kernel
  have hreading : (run (unhurried os) s).2.readingSide = ⟨.idle, 4, 1, [0xcc]⟩ := by decide +kernel
  have hwriting : (run (unhurried os) s).2.writingSide = ⟨[0, 1, 7], 3, 1⟩ := by decide +kernel
  have hlarge : (Request.perform ⟨.writeVarint (2 ^ 62), none⟩ s).1.result =
      .stopped (.failed (.integerTooLarge (2 ^ 62))) := by decide +kernel
  obtain ⟨-, hreads, -, hwrites, hmisuse⟩ := sides_do_not_interfere (s := s) rfl hp
  exact ⟨s, os, rfl, rfl, hreads.trans hreading, hwrites.trans hwriting,
    hmisuse [] _ os.tail _ rfl hlarge rfl⟩

end Http3Framing.FramedStream
