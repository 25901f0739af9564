import Http3Framing.FramedStream.Walk
import Http3Framing.Proofs.Drawing

/-! Writing frames to a transport that takes a part of every write. All of a block is taken in the
end, so the output is the bytes of the frames one after the other. A frame whose kind or length the
wire cannot carry is refused and leaves no byte. -/

namespace Http3Framing

open Transport

namespace Transport

/-- The write is taken at least in part, at once or later. -/
def WriteEvent.takes : WriteEvent → Bool
  | accept n => 0 < n
  | acceptAll | pending => true
  | failure _ => false

/-- Every write is taken at least in part. -/
def Willing (t : Transport) : Prop := ∀ e ∈ t.writes, e.takes

theorem writeAllTo_willing (flavour : Flavour) {events : List WriteEvent}
    (h : ∀ e ∈ events, e.takes) (left : List UInt8) :
    (writeAllTo flavour events none left).answer = .done () ∧
      (writeAllTo flavour events none left).patience = none ∧
      ∀ e ∈ (writeAllTo flavour events none left).rest, e.takes := by
  induction events generalizing left with
  | nil => cases left <;> simp [writeAllTo]
  | cons e events ih =>
    have he : e.takes := h e List.mem_cons_self
    have hrest : ∀ e ∈ events, e.takes := fun e' he' => h e' (List.mem_cons_of_mem e he')
    cases left with
    | nil => simpa [writeAllTo] using h
    | cons b bs =>
      cases e with
      | pending => simpa [writeAllTo, Exchange.after] using ih hrest (b :: bs)
      | failure cause => cases he
      | acceptAll => simpa [writeAllTo] using hrest
      | accept n =>
        have hn : n ≠ 0 := by
          rintro rfl
          cases he
        simpa [writeAllTo, hn, Exchange.after] using
          ih hrest ((b :: bs).drop (min n (b :: bs).length))

end Transport

/-- A frame whose kind and length the wire can carry. -/
def Sendable (frame : Frame.Kind × List UInt8) : Prop :=
  frame.1.code < 2 ^ 62 ∧ frame.2.length < 2 ^ 62

instance : DecidablePred Sendable := fun _ => inferInstanceAs (Decidable (_ ∧ _))

/-- The frames that are not refused. -/
def sendable (frames : List (Frame.Kind × List UInt8)) : List (Frame.Kind × List UInt8) :=
  frames.filter Sendable

/-- The bytes of a frame on the wire: none if it is refused. -/
def frameBytes (frame : Frame.Kind × List UInt8) : List UInt8 :=
  match Frame.Header.encode ⟨frame.1, frame.2.length⟩ with
  | .ok header => header ++ frame.2
  | .error _ => []

/-- The bytes of frames one after the other. -/
def wire (frames : List (Frame.Kind × List UInt8)) : List UInt8 := frames.flatMap frameBytes

theorem Varint.checked_of_lt {n : Nat} (h : n < 2 ^ 62) : Varint.checked n = .ok ⟨n, h⟩ := by
  unfold Varint.checked
  rw [Varint.ofNat?_eq_some_iff.2 (rfl : (⟨n, h⟩ : Varint).toNat = n)]

theorem Varint.checked_of_le {n : Nat} (h : 2 ^ 62 ≤ n) :
    Varint.checked n = .error (.integerTooLarge n) := by
  unfold Varint.checked
  rw [Varint.ofNat?_eq_none_iff.2 h]

/-- The field of a header that the wire cannot carry, the first one if it is both. -/
def Frame.Header.excess? (h : Frame.Header) : Option Nat :=
  if 2 ^ 62 ≤ h.kind.code then some h.kind.code
  else if 2 ^ 62 ≤ h.len then some h.len
  else none

theorem Frame.Header.encode_of_excess {h : Frame.Header} {n : Nat} (hn : h.excess? = some n) :
    h.encode = .error (.integerTooLarge n) := by
  unfold excess? at hn
  unfold encode
  split at hn
  · next hk =>
    cases hn
    rw [Varint.checked_of_le hk]
    rfl
  · next hk =>
    split at hn
    · next hl =>
      cases hn
      rw [Varint.checked_of_lt (Nat.lt_of_not_le hk), Varint.checked_of_le hl]
      rfl
    · cases hn

theorem Frame.Header.encode_of_fits {h : Frame.Header} (hn : h.excess? = none) :
    ∃ kind len : Varint, h.encode = .ok (kind.encode ++ len.encode) := by
  unfold excess? at hn
  unfold encode
  split at hn
  · cases hn
  · next hk =>
    split at hn
    · cases hn
    · next hl =>
      rw [Varint.checked_of_lt (Nat.lt_of_not_le hk), Varint.checked_of_lt (Nat.lt_of_not_le hl)]
      exact ⟨_, _, rfl⟩

theorem encode_of_sendable {frame : Frame.Kind × List UInt8} (h : Sendable frame) :
    Frame.Header.encode ⟨frame.1, frame.2.length⟩ =
      .ok (Varint.encode ⟨frame.1.code, h.1⟩ ++ Varint.encode ⟨frame.2.length, h.2⟩) := by
  unfold Frame.Header.encode
  rw [Varint.checked_of_lt h.1, Varint.checked_of_lt h.2]
  rfl

theorem sendable_iff {frame : Frame.Kind × List UInt8} :
    Sendable frame ↔ Frame.Header.excess? ⟨frame.1, frame.2.length⟩ = none := by
  unfold Sendable Frame.Header.excess?
  by_cases hk : 2 ^ 62 ≤ frame.1.code
  · rw [if_pos hk]
    exact iff_of_false (fun h => Nat.not_le_of_lt h.1 hk) (Option.some_ne_none _)
  · rw [if_neg hk]
    by_cases hl : 2 ^ 62 ≤ frame.2.length
    · rw [if_pos hl]
      exact iff_of_false (fun h => Nat.not_le_of_lt h.2 hl) (Option.some_ne_none _)
    · rw [if_neg hl]
      exact iff_of_true ⟨Nat.lt_of_not_le hk, Nat.lt_of_not_le hl⟩ rfl

theorem encode_of_not_sendable {frame : Frame.Kind × List UInt8} (h : ¬ Sendable frame) :
    ∃ n, Frame.Header.excess? ⟨frame.1, frame.2.length⟩ = some n ∧
      Frame.Header.encode ⟨frame.1, frame.2.length⟩ = .error (.integerTooLarge n) := by
  rw [sendable_iff] at h
  obtain ⟨n, hn⟩ := Option.ne_none_iff_exists'.1 h
  exact ⟨n, hn, Frame.Header.encode_of_excess hn⟩

theorem wire_sendable (frames : List (Frame.Kind × List UInt8)) :
    wire (sendable frames) = wire frames := by
  unfold sendable
  induction frames with
  | nil => rfl
  | cons frame frames ih =>
    unfold wire at ih ⊢
    by_cases h : Sendable frame
    · rw [List.filter_cons_of_pos (by simpa using h), List.flatMap_cons, List.flatMap_cons, ih]
    · obtain ⟨n, -, hf⟩ := encode_of_not_sendable h
      have hnone : frameBytes frame = [] := by
        unfold frameBytes
        rw [hf]
      rw [List.filter_cons_of_neg (by simpa using h), List.flatMap_cons, hnone, ih]
      rfl

namespace FramedStream

open FramingM

/-- The caller waits, the stream is usable and its transport takes what is written. -/
structure Sends (s : FramedStream) : Prop where
  patience : s.patience = none
  usable : s.position ≠ .poisoned
  willing : s.transport.Willing

/-- The stream can still be written and has put out these bytes. -/
structure Sent (s s' : FramedStream) (bytes : List UInt8) : Prop where
  sends : s'.Sends
  output : s'.transport.output = s.transport.output ++ bytes

theorem exchange_of_done {α : Type} {s : FramedStream} {a : α}
    (talk : Patience → Transport → Outcome α) (h : (talk s.patience s.transport).answer = .done a) :
    exchange talk s = .ok a { s with
      transport := (talk s.patience s.transport).transport
      patience := (talk s.patience s.transport).patience } := by
  simp only [exchange, h]

theorem writeAll_of_sends {s : FramedStream} (h : s.Sends) (bytes : List UInt8) :
    ∃ s', FramedStream.writeAll bytes s = .ok () s' ∧ Sent s s' bytes := by
  obtain ⟨hdone, hpatience, hrest⟩ := writeAllTo_willing s.flavour h.willing bytes
  have hanswer : (s.transport.writeAll s.flavour bytes s.patience).answer = .done () := by
    rw [h.patience]
    exact hdone
  have hx := exchange_of_done (Transport.writeAll s.flavour bytes) hanswer
  refine ⟨_, (bind_of_ok (ask_usable h.usable)).trans (bind_of_ok hx), ⟨?_, h.usable, ?_⟩, ?_⟩
  · simp only [h.patience]
    exact hpatience
  · simp only [h.patience]
    exact hrest
  · simp only [h.patience]
    have houtput := output_record s.transport
      (writeAllTo s.flavour s.transport.writes none bytes).calls
    rw [accepted_of_done hdone] at houtput
    exact houtput

theorem writeHeader_of_sends {s : FramedStream} {header : Frame.Header} {bytes : List UInt8}
    (h : s.Sends) (he : header.encode = .ok bytes) :
    ∃ s', FramedStream.writeHeader header s = .ok () s' ∧ Sent s s' bytes := by
  have hbytes : encoded header.encode s = .ok bytes s := by
    rw [he]
    rfl
  obtain ⟨s₁, hx, hsent⟩ := writeAll_of_sends h bytes
  refine ⟨{ s₁ with stats := s₁.stats.recordFrameWritten }, ?_, ⟨?_, hsent.output⟩⟩
  · exact (bind_of_ok (ask_usable h.usable)).trans ((bind_of_ok hbytes).trans (bind_of_ok hx))
  · exact ⟨hsent.sends.patience, hsent.sends.usable, hsent.sends.willing⟩

/-- A frame that is refused leaves the stream as it is. -/
theorem writeHeader_of_error {s : FramedStream} {header : Frame.Header} {f : Failure}
    (hu : s.position ≠ .poisoned) (he : header.encode = .error f) :
    FramedStream.writeHeader header s = .error (.failed f) s := by
  have hbytes : encoded header.encode s = .error (.failed f) s := by
    rw [he]
    rfl
  exact (bind_of_ok (ask_usable hu)).trans (bind_of_error hbytes)

/-- What the writer of a frame is told: it is done, or the number that the wire cannot carry. -/
def frameReport (frame : Frame.Kind × List UInt8) : Report :=
  match Frame.Header.excess? ⟨frame.1, frame.2.length⟩ with
  | none => ⟨.ok .done, none⟩
  | some n => ⟨.stopped (.failed (.integerTooLarge n)), none⟩

/-- One frame is done and puts out its bytes, or it is refused and puts out nothing. -/
theorem perform_writeFrame {s : FramedStream} (h : s.Sends)
    (frame : Frame.Kind × List UInt8) :
    ∃ s', Request.perform ⟨.writeFrame frame.1 frame.2, none⟩ s = (frameReport frame, s') ∧
      Sent s s' (frameBytes frame) := by
  have hperform : ∃ s', (Operation.writeFrame frame.1 frame.2).perform s = (frameReport frame, s') ∧
      Sent s s' (frameBytes frame) := by
    unfold frameBytes frameReport
    by_cases hs : Sendable frame
    · obtain ⟨s₁, hx, hsent⟩ := writeHeader_of_sends h (encode_of_sendable hs)
      obtain ⟨s₂, hy, hsent'⟩ := writeAll_of_sends hsent.sends frame.2
      have hz : FramedStream.writeFrame frame.1 frame.2 s = .ok () s₂ := (bind_of_ok hx).trans hy
      rw [encode_of_sendable hs, sendable_iff.1 hs]
      refine ⟨s₂, ?_, hsent'.sends, ?_⟩
      · simp only [Operation.perform, report, hz]
      · rw [hsent'.output, hsent.output, List.append_assoc]
    · obtain ⟨n, hn, he⟩ := encode_of_not_sendable hs
      have hz : FramedStream.writeFrame frame.1 frame.2 s =
          .error (.failed (.integerTooLarge n)) s := bind_of_error (writeHeader_of_error h.usable he)
      rw [he, hn]
      refine ⟨s, ?_, h, (List.append_nil _).symm⟩
      simp only [Operation.perform, report, hz]
  obtain ⟨s', hs', hsent⟩ := hperform
  refine ⟨s', ?_, hsent⟩
  rw [Request.perform_none h.patience (by rw [hs']; exact hsent.sends.patience), hs']

/-- Frames put out their bytes in order, and each is reported on by itself. -/
theorem run_writing {s : FramedStream} (h : s.Sends) (frames : List (Frame.Kind × List UInt8)) :
    ∃ s', run (writing frames) s = (frames.map frameReport, s') ∧ Sent s s' (wire frames) := by
  induction frames generalizing s with
  | nil => exact ⟨s, rfl, h, (List.append_nil _).symm⟩
  | cons frame frames ih =>
    obtain ⟨s₁, hx, hsent⟩ := perform_writeFrame h frame
    obtain ⟨s₂, hy, hsent'⟩ := ih hsent.sends
    refine ⟨s₂, ?_, hsent'.sends, ?_⟩
    · change run (⟨.writeFrame frame.1 frame.2, none⟩ :: writing frames) s = _
      rw [run_cons, hx, hy, List.map_cons]
    · rw [hsent'.output, hsent.output, List.append_assoc]
      rfl

end FramedStream

end Http3Framing
