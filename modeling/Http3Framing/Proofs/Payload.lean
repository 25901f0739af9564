import Http3Framing.Proofs.Outlook

/-! A payload is read in steps as its buffer grows. Inside the frame that owes them, several buffers in a
row are filled as one buffer of their joint size is: the frame does not end between them, and what halts
one of them tells only what the frame still owes. So the limits decide whether a payload is read, and
nothing about how it comes out. -/

namespace Http3Framing.FramedStream

open FramingM Transport

variable {s s₁ s' : FramedStream} {room room' more owed : Nat} {started started' : Bool}
  {pieces pieces' : List (List UInt8)} {stop : Option Stop} {f : Stop}

/-- What halts a reader inside a frame is told by what the frame owes. -/
theorem settle_inFrame (halt : Halt) (room room' : Nat) (started started' : Bool) (owed : Nat) :
    halt.settle room started (.inFrame owed) = halt.settle room' started' (.inFrame owed) := by
  cases halt <;> rfl

/-- Inside a frame that owes what is left of a buffer, only that something is left matters. -/
theorem Finish.inFrame (h : Finish room started s stop s') (hp : s.position = .inFrame owed)
    (hle : room ≤ owed) (hroom : room = 0 ↔ room' = 0) : Finish room' started' s stop s' := by
  cases h with
  | full left => exact .full (hroom.1 left)
  | crossed left owes =>
    cases hp.symm.trans owes
    omega
  | halted wants listens nothing outlook settled =>
    rw [hp] at wants settled
    rw [settle_inFrame _ room room' started started'] at settled
    simp only [Position.cap] at wants
    refine .halted ?_ listens nothing outlook (hp ▸ settled)
    rw [hp, Position.cap]
    omega

/-- A filling that stopped short would have stopped as it did with more room. -/
theorem Fills.widen (h : Fills room started s pieces (some f) s') (hp : s.position = .inFrame owed)
    (hle : room ≤ room') (howed : room' ≤ owed) : Fills room' started s pieces (some f) s' := by
  obtain ⟨s₁, made, hpulls, hfinish⟩ := h.ends
  have hk := h.le
  rw [hp, Position.cap] at hk
  have hp₁ := hpulls.inFrame hp rfl
  have hleft : room - pieces.flatten.length ≠ 0 := by
    cases hfinish with
    | crossed left => exact Nat.ne_of_gt left
    | halted wants =>
      have hcap := s₁.position.cap_le (room - pieces.flatten.length)
      omega
  refine ⟨?_, s₁, made, hpulls, hfinish.inFrame hp₁ (by omega) (by omega)⟩
  rw [hp, Position.cap]
  omega

/-- A buffer that is filled without a stop is full. -/
theorem Fills.full (h : Fills room started s pieces none s₁) :
    pieces.flatten.length = room ∧ ∃ made, Pulls s s₁ made pieces.flatten := by
  obtain ⟨_, made, hpulls, hfinish⟩ := h.ends
  have hle := Nat.le_trans h.le (s.position.cap_le room)
  cases hfinish with
  | full left => exact ⟨by omega, made, hpulls⟩

/-- A full buffer and another one after it are one buffer. -/
theorem Fills.append (h : Fills room started s pieces none s₁)
    (h' : Fills more started' s₁ pieces' stop s') (hp : s.position = .inFrame owed)
    (howed : room + more ≤ owed) : Fills (room + more) started s (pieces ++ pieces') stop s' := by
  obtain ⟨hfull, made, hpulls⟩ := h.full
  obtain ⟨s₂, made', hpulls', hfinish⟩ := h'.ends
  have hk := h'.le
  have hp₁ := hpulls.inFrame hp hfull
  have hp₂ := hpulls'.inFrame hp₁ rfl
  have hlength : (pieces ++ pieces').flatten.length = room + pieces'.flatten.length := by
    rw [List.flatten_append, List.length_append, hfull]
  rw [hp₁, Position.cap] at hk
  refine ⟨?_, s₂, made ++ made', ?_, hfinish.inFrame hp₂ (by omega) (by omega)⟩
  · rw [hp, Position.cap]
    omega
  · rw [List.flatten_append]
    exact hpulls.trans hpulls'

/-- Buffers that are filled one after the other, inside the frame that owes their bytes. -/
theorem fills_readSteps (steps : List Nat) (s : FramedStream) (hs : s.transport.Honest)
    (hp : s.position = .inFrame owed) (howed : steps.sum ≤ owed) :
    ∃ pieces stop s', readSteps steps s = stop.elim (.ok (pieces.map .stored) s') (.error · s') ∧
      Fills steps.sum false s pieces stop s' := by
  induction steps generalizing s owed with
  | nil => exact ⟨[], none, s, rfl, fills_of_finish (.full rfl)⟩
  | cons step steps ih =>
    rw [List.sum_cons] at howed ⊢
    obtain ⟨pieces, stop, s₁, hx, hfills⟩ :=
      fills_readBlocks step step false s hs (by rw [hp]; rintro ⟨⟩) (Nat.le_refl step)
    rw [← readExact_eq] at hx
    cases stop with
    | some f =>
      refine ⟨pieces, some f, s₁, ?_, hfills.widen hp (by omega) howed⟩
      rw [readSteps, bind_of_ok hx]
      rfl
    | none =>
      obtain ⟨hfull, made, hpulls⟩ := hfills.full
      obtain ⟨pieces', stop, s', hy, hfills'⟩ :=
        ih s₁ (hpulls.honest hs) (hpulls.inFrame hp hfull) (by omega)
      refine ⟨pieces ++ pieces', stop, s', ?_, hfills.append hfills' hp howed⟩
      rw [readSteps, bind_of_ok hx]
      simp only
      cases stop with
      | none =>
        rw [bind_of_ok hy, List.map_append]
        rfl
      | some f => exact bind_of_error hy

/-- A payload within the limit is one buffer of the size that the frame owes, whatever the buffer that it
is read into starts with. -/
theorem fills_readPayload (hs : s.transport.Honest) (hp : s.position = .inFrame owed)
    (hle : owed ≤ s.limits.maxPayload) :
    ∃ pieces stop s', FramedStream.readPayload s = stop.elim (.ok pieces.flatten s') (.error · s') ∧
      Fills owed false s pieces stop s' := by
  have hsum := s.limits.sum_steps owed
  obtain ⟨pieces, stop, s', hx, hfills⟩ :=
    fills_readSteps (s.limits.steps owed) s hs hp (Nat.le_of_eq hsum)
  rw [hsum] at hfills
  refine ⟨pieces, stop, s', ?_, hfills⟩
  rw [readPayload_in_steps hp hle]
  cases stop with
  | none =>
    have hdrop : (List.replicate owed (0 : UInt8)).drop pieces.flatten.length = [] := by
      rw [hfills.full.1, List.drop_replicate, Nat.sub_self, List.replicate_zero]
    rw [bind_of_ok hx, pure_apply, Delivery.overlay_stored, hdrop, List.append_nil]
    rfl
  | some f => exact bind_of_error hx

theorem perform_readPayload {payload : List UInt8}
    (hx : FramedStream.readPayload s = stop.elim (.ok payload s') (.error · s')) :
    Operation.readPayload.perform s = (⟨stop.elim (.ok (.payload payload)) .stopped, none⟩, s') := by
  simp only [Operation.perform, report, hx]
  cases stop <;> rfl

/-- A payload and a buffer of its size get the same bytes and the same stop, and leave the stream alike. -/
theorem perform_payload_and_buffer (hs : s.transport.Honest) (hp : s.position = .inFrame owed)
    (hle : owed ≤ s.limits.maxPayload) :
    ∃ payload stop s₁ s₂,
      Operation.readPayload.perform s = (⟨stop.elim (.ok (.payload payload)) .stopped, none⟩, s₁) ∧
      (Operation.readExact (List.replicate owed 0)).perform s =
        (⟨stop.elim (.ok .done) .stopped,
          some (payload ++ List.replicate (owed - payload.length) 0)⟩, s₂) ∧
      (stop = none → payload.length = owed ∧ ∃ made, Pulls s s₁ made payload) ∧
      s₁.position = s₂.position ∧ s₁.stats = s₂.stats ∧
      s₁.transport.unread = s₂.transport.unread ∧ s₁.transport.feed = s₂.transport.feed := by
  obtain ⟨pieces, stop, s₁, hx, hfills⟩ := fills_readPayload hs hp hle
  let buffer : List UInt8 := List.replicate owed 0
  have hlength : buffer.length = owed := List.length_replicate
  obtain ⟨pieces', stop', s₂, hy, hfills'⟩ := fills_readBlocks buffer.length buffer.length false s hs
    (by rw [hp]; rintro ⟨⟩) (Nat.le_refl _)
  have hexact := perform_readExact hy
  rw [hlength] at hfills'
  obtain ⟨hbytes, rfl, halike⟩ := hfills.unique hs hfills'
  rw [← hbytes, List.drop_replicate] at hexact
  refine ⟨pieces.flatten, stop, s₁, s₂, perform_readPayload hx, hexact, ?_, halike⟩
  rintro rfl
  exact hfills.full

/-- The payload that a frame owes is read as one buffer of its size is filled: refused above the limit
without a look at the transport, and otherwise the same bytes or the same stop, the same position, the
same counters and the same rest of the stream. -/
theorem payload_read_as_one_buffer (hs : s.transport.Honest) (hp : s.position = .inFrame owed)
    (patience : Patience) :
    let p := Request.perform ⟨.readPayload, patience⟩ s
    let e := Request.perform ⟨.readExact (List.replicate owed 0), patience⟩ s
    (s.limits.maxPayload < owed →
      p.1.result = .stopped (.failed (.frame (.payloadTooLarge owed s.limits.maxPayload))) ∧
        p.2.position = .poisoned ∧ p.2.stats = s.stats ∧ p.2.transport = s.transport) ∧
    (owed ≤ s.limits.maxPayload →
      ((∃ payload, p.1.result = .ok (.payload payload) ∧ e.1.result = .ok .done ∧
          e.1.buffer = some payload ∧ payload.length = owed ∧ p.2.position = .inFrame 0 ∧
          s.transport.unread = payload ++ p.2.transport.unread ∧
          s.transport.feed = payload.map .byte ++ p.2.transport.feed) ∨
        ∃ stop, p.1.result = .stopped stop ∧ e.1.result = .stopped stop) ∧
      p.2.position = e.2.position ∧ p.2.stats = e.2.stats ∧
      p.2.transport.unread = e.2.transport.unread ∧ p.2.transport.feed = e.2.transport.feed) ∧
    (owed = 0 → p.1.result = .ok (.payload []) ∧ p.2.transport = s.transport) := by
  let s₀ : FramedStream := { s with patience := s.flavour.patience patience }
  have hp₀ : s₀.position = .inFrame owed := hp
  refine ⟨fun hlt => ?_, fun hle => ?_, ?_⟩
  · have hperform : Operation.readPayload.perform s₀ =
        (⟨.stopped (.failed (.frame (.payloadTooLarge owed s.limits.maxPayload))), none⟩,
          s₀.poisonedBy (.frame (.payloadTooLarge owed s.limits.maxPayload))) := by
      simp only [Operation.perform, report, readPayload_of_oversized hp₀ hlt, poison]
      rfl
    simp only [Request.perform]
    rw [hperform]
    exact ⟨rfl, s₀.position_poisonedBy _,
      (listens_poisonedBy s₀ _).stats.trans (Stats.recordRead_zero _), s₀.transport_poisonedBy _⟩
  · obtain ⟨payload, stop, s₁, s₂, hpayload, hbuffer, hfull, halike⟩ :=
      perform_payload_and_buffer (s := s₀) hs hp hle
    simp only [Request.perform]
    rw [hpayload, hbuffer]
    refine ⟨?_, halike⟩
    cases stop with
    | some f => exact .inr ⟨f, rfl, rfl⟩
    | none =>
      obtain ⟨hlength, made, hpulls⟩ := hfull rfl
      refine .inl ⟨payload, rfl, rfl, ?_, hlength, ?_, ?_, hpulls.feed⟩
      · rw [hlength, Nat.sub_self, List.replicate_zero, List.append_nil]
      · show s₁.position = .inFrame 0
        rw [hpulls.position, hp₀, hlength]
        exact congrArg Position.inFrame (Nat.sub_self owed)
      · exact hpulls.brought ▸ hpulls.listens.unread
  · rintro rfl
    have hx : FramedStream.readPayload s₀ = .ok [] s₀ := readPayload_of_inFrame hp₀ (Nat.zero_le _)
    have hperform : Operation.readPayload.perform s₀ = (⟨.ok (.payload []), none⟩, s₀) := by
      simp only [Operation.perform, report, hx]
    simp only [Request.perform]
    rw [hperform]
    exact ⟨rfl, rfl⟩

/-- Five bytes that arrive in three pieces, read in steps of one, one, two and one. -/
theorem payload_read_as_one_buffer_five : ∃ (t : Transport) (s : FramedStream),
    s = { ofTransport .suspending ⟨8, 0⟩ t with position := .inFrame 5 } ∧ t.Honest ∧
      s.limits.steps 5 = [1, 1, 2, 1] ∧
      (Request.perform ⟨.readPayload, some 2⟩ s).1.result = .ok (.payload [1, 2, 3, 4, 5]) ∧
      (Request.perform ⟨.readPayload, some 2⟩ s).2.transport.feed = [.byte 6, .finish] ∧
      (Request.perform ⟨.readPayload, some 1⟩ s).1.result = .stopped .dropped := by
  let t : Transport := {
    reads := [.data [1, 2, 3], .failure IoKind.interrupted, .pending, .data [4], .data [5, 6], .finish] }
  let s : FramedStream := { ofTransport .suspending ⟨8, 0⟩ t with position := .inFrame 5 }
  have hs : s.transport.Honest := by simp [s, t, ofTransport, Transport.Honest]
  have hle : 5 ≤ s.limits.maxPayload := by decide
  obtain ⟨-, hread, -⟩ := payload_read_as_one_buffer hs rfl (some 2)
  obtain ⟨-, hread', -⟩ := payload_read_as_one_buffer hs rfl (some 1)
  obtain ⟨hresult, -, -, -, hfeed⟩ := hread hle
  obtain ⟨hresult', -⟩ := hread' hle
  have hexact : (Request.perform ⟨.readExact (List.replicate 5 0), some 2⟩ s).1 =
      ⟨.ok .done, some [1, 2, 3, 4, 5]⟩ := by decide +kernel
  have hexact' : (Request.perform ⟨.readExact (List.replicate 5 0), some 1⟩ s).1.result =
      .stopped .dropped := by decide +kernel
  have hrest : (Request.perform ⟨.readExact (List.replicate 5 0), some 2⟩ s).2.transport.feed =
      [.byte 6, .finish] := by decide +kernel
  refine ⟨t, s, rfl, hs, by decide, ?_, hfeed.trans hrest, ?_⟩
  · rw [hexact] at hresult
    rcases hresult with ⟨payload, hok, -, hbuffer, -⟩ | ⟨stop, -, hstop⟩
    · cases hbuffer
      exact hok
    · cases hstop
  · rw [hexact'] at hresult'
    rcases hresult' with ⟨payload, -, hok, -⟩ | ⟨stop, hdropped, hstop⟩
    · cases hok
    · cases hstop
      exact hdropped

end Http3Framing.FramedStream
