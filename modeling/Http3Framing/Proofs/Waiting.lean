import Http3Framing.FramedStream.Opening
import Http3Framing.Proofs.Pairing
import Http3Framing.Proofs.Settling

/-! Waiting changes nothing but time. A stream whose caller suspends and one whose caller blocks are
run side by side, over transports with the same events apart from the answers that they are not
ready. Actions on the two match when they end in the same way and leave streams that mirror each
other; while no write is interrupted all operations match, so runs of any length do. The one
difference is in how a write that took nothing is reported. -/

namespace Http3Framing

open Transport

/-- The same stop, or two reports of a write that took nothing. -/
inductive Stop.Alike : Stop → Stop → Prop
  | refl (stop : Stop) : Alike stop stop
  | stall (flavour flavour' : Flavour) :
    Alike (.failed (.transport (stall flavour))) (.failed (.transport (stall flavour')))

namespace FramedStream

/-- Between requests nothing that a caller sees tells the streams apart, and their transports have
the same to come. -/
structure Mirrors (s s' : FramedStream) : Prop where
  position : s.position = s'.position
  limits : s.limits = s'.limits
  stats : s.stats = s'.stats
  transport : s.transport.settle = s'.transport.settle
  uninterrupted : s.transport.Uninterrupted
  patience : s.patience = none
  patience' : s'.patience = none

instance : FramingM.Pairing Mirrors where
  position h := h.position
  limits h := h.limits
  place _ h := ⟨rfl, h.limits, h.stats, h.transport, h.uninterrupted, h.patience, h.patience'⟩
  count {_ _ f} _ h := ⟨h.position, h.limits, congrArg f h.stats, h.transport, h.uninterrupted,
    h.patience, h.patience'⟩
  tell _ _ h :=
    ⟨h.position, h.limits, h.stats, h.transport, h.uninterrupted, h.patience, h.patience'⟩

end FramedStream

namespace FramingM

open FramedStream

variable {α : Type} {R : Stop → Stop → Prop}

/-- Two exchanges of callers that wait, answered alike and with the same to come. -/
structure Outcomes (R : Stop → Stop → Prop) (o o' : Outcome α) : Prop where
  transport : o.transport.settle = o'.transport.settle
  uninterrupted : o.transport.Uninterrupted
  patience : o.patience = none
  patience' : o'.patience = none
  answer : o.answer = o'.answer ∨ ∃ c c', o.answer = .failed c ∧ o'.answer = .failed c' ∧
    R (.failed (.transport c)) (.failed (.transport c'))

theorem mirrors_exchange {talk talk' : Patience → Transport → Outcome α}
    (hR : ∀ stop, R stop stop)
    (h : ∀ t t' : Transport, t.settle = t'.settle → t.Uninterrupted →
      Outcomes R (talk none t) (talk' none t')) :
    Matches Mirrors R Eq (exchange talk) (exchange talk') := by
  apply matches_exchange hR
  intro s s' hs
  rw [hs.patience, hs.patience']
  obtain ⟨ht, hu, hp, hp', ha⟩ := h s.transport s'.transport hs.transport hs.uninterrupted
  exact ⟨ha, hs.position, hs.limits, hs.stats, ht, hu, hp, hp'⟩

end FramingM

namespace FramedStream

open FramingM

/-! ### Exchanges -/

/-- What a caller asks for goes through in the same way over a transport and over the settled one, and
leaves a part of the writes to come. -/
structure Settles {α : Type} (talk : Patience → Transport → Outcome α) : Prop where
  settle (t : Transport) : talk none t.settle = (talk none t).settle
  patience (t : Transport) : (talk none t).patience = none
  writes (t : Transport) : (talk none t).transport.writes <:+ t.writes

theorem Settles.alike {α : Type} {talk : Patience → Transport → Outcome α} (h : Settles talk)
    {t t' : Transport} (ht : t.settle = t'.settle) :
    (talk none t).transport.settle = (talk none t').transport.settle ∧
      (talk none t).answer = (talk none t').answer := by
  have heq : (talk none t).settle = (talk none t').settle := by rw [← h.settle, ← h.settle, ht]
  have htransport := congrArg Outcome.transport heq
  have hanswer := congrArg Outcome.answer heq
  exact ⟨htransport, hanswer⟩

theorem Settles.outcomes {α : Type} {talk : Patience → Transport → Outcome α} (h : Settles talk)
    (t t' : Transport) (ht : t.settle = t'.settle) (hu : t.Uninterrupted) :
    Outcomes Eq (talk none t) (talk none t') := by
  obtain ⟨htransport, hanswer⟩ := h.alike ht
  exact ⟨htransport, hu.of_suffix (h.writes t), h.patience t, h.patience t', .inl hanswer⟩

theorem steady_exchange {α : Type} {talk : Patience → Transport → Outcome α} (h : Settles talk) :
    Steady Mirrors (exchange talk) :=
  mirrors_exchange (fun _ => rfl) h.outcomes

theorem settles_read (want : Nat) : Settles (Transport.read true want) where
  settle := settle_read true want
  patience := patience_read want
  writes t := by
    unfold Transport.read
    split <;> exact List.suffix_rfl

theorem settles_write (bytes : List UInt8) : Settles (Transport.write bytes) where
  settle := settle_write bytes
  patience t := (writeTo_waiting bytes t.writes).2.1
  writes t := rest_writeTo bytes t.writes

theorem settles_writeAll (flavour : Flavour) (bytes : List UInt8) :
    Settles (Transport.writeAll flavour bytes) where
  settle := settle_writeAll flavour bytes
  patience t := (writeAllTo_waiting flavour t.writes bytes).2.1
  writes t := rest_writeAllTo flavour t.writes bytes

theorem settles_flush : Settles Transport.flush where
  settle := settle_flush
  patience t := (flushOf_waiting t.flushes).2.1
  writes _ := List.suffix_rfl

theorem mirrors_readOnce (want : Nat) : Steady Mirrors (readOnce want) :=
  .bind (steady_exchange (settles_read want)) fun d =>
    .bind (steady_count (.read _)) fun _ => steady_pure d

theorem outcomes_writeAll (flavour flavour' : Flavour) (bytes : List UInt8) (t t' : Transport)
    (ht : t.settle = t'.settle) (hu : t.Uninterrupted) :
    Outcomes Stop.Alike (t.writeAll flavour bytes none) (t'.writeAll flavour' bytes none) := by
  have h := settles_writeAll flavour' bytes
  obtain ⟨htransport, hanswer⟩ := h.alike ht
  -- over one transport the two kinds of callers make the same calls
  obtain ⟨answer, hx, ha⟩ := writeAllTo_flavour flavour' flavour hu bytes
  have hsame : t.writeAll flavour bytes none = { t.writeAll flavour' bytes none with answer } := by
    simp only [Transport.writeAll, hx]
  rw [hsame]
  refine ⟨htransport, hu.of_suffix (h.writes t), h.patience t, h.patience t', ?_⟩
  rcases ha with rfl | ⟨hstall, rfl⟩
  · exact .inl hanswer
  · exact .inr ⟨_, _, rfl, hanswer.symm.trans hstall, .stall flavour flavour'⟩

theorem outlets_mirrors : Outlets Mirrors Stop.Alike where
  write bytes := steady_exchange (settles_write bytes)
  writeAll bytes := matches_writeAll .refl fun s s' _ =>
    mirrors_exchange .refl (outcomes_writeAll s.flavour s'.flavour bytes)
  flush := steady_exchange settles_flush

/-! ### Operations -/

/-- The same value, or failures of the same kind with the same violation, and the same content of
the buffer. -/
def Report.Agrees (r r' : Report) : Prop :=
  r.buffer = r'.buffer ∧ match r.result, r'.result with
    | .ok reply, .ok reply' => reply = reply'
    | .stopped (.failed f), .stopped (.failed f') =>
      f.label = f'.label ∧ f.violation? = f'.violation?
    | .stopped stop, .stopped stop' => stop = stop'
    | _, _ => False

theorem Report.agrees_of_alike {stop stop' : Stop} (h : stop.Alike stop')
    (buffer : Option (List UInt8)) :
    Report.Agrees ⟨.stopped stop, buffer⟩ ⟨.stopped stop', buffer⟩ := by
  refine ⟨rfl, ?_⟩
  cases h with
  | refl => cases stop <;> simp
  | stall flavour flavour' => cases flavour <;> cases flavour' <;> exact ⟨rfl, rfl⟩

theorem Report.agrees_refl (r : Report) : r.Agrees r := by
  obtain ⟨result, buffer⟩ := r
  cases result with
  | ok reply => exact ⟨rfl, rfl⟩
  | stopped stop => exact agrees_of_alike (.refl stop) buffer

/-! ### Runs -/

theorem together_run {s s' : FramedStream} (hs : Mirrors s s') (os : List Operation) :
    (∀ x ∈ (run (unhurried os) s).1.zip (run (unhurried os) s').1, x.1.Agrees x.2) ∧
      Mirrors (run (unhurried os) s).2 (run (unhurried os) s').2 := by
  refine paired_run (fun _ _ h => ⟨h.patience, h.patience'⟩) (fun o _ s s' h => ?_) hs
  exact together_perform (intakes_of_readOnce mirrors_readOnce) outlets_mirrors .refl
    Report.agrees_refl (fun _ _ hstop => Report.agrees_of_alike hstop none) h o
    fun buffer _ => steady_readBlock mirrors_readOnce buffer.length

/-- A suspending stream and a blocking one, over transports that differ in nothing but in the
answers that they are not ready and that interrupt no write, report the same after every operation
of any sequence and are then in the same state; the bytes put out and the bytes left to read are the
same too. -/
theorem suspending_refines_blocking (insists : Bool) (limits : Limits) {t t' : Transport}
    (h : t.settle = t'.settle) (hu : t.Uninterrupted) (os : List Operation) (n : Nat) :
    let r := run (unhurried (os.take n)) (ofTransport (.suspending insists) limits t)
    let r' := run (unhurried (os.take n)) (ofTransport .blocking limits t')
    r.1.length = r'.1.length ∧ (∀ x ∈ r.1.zip r'.1, x.1.Agrees x.2) ∧
      r.2.position = r'.2.position ∧ r.2.stats = r'.2.stats ∧
      r.2.transport.output = r'.2.transport.output ∧
      r.2.transport.unread = r'.2.transport.unread := by
  have hstart : Mirrors (ofTransport (.suspending insists) limits t)
      (ofTransport .blocking limits t') := ⟨rfl, rfl, rfl, h, hu, rfl, rfl⟩
  obtain ⟨hreports, hm⟩ := together_run hstart (os.take n)
  refine ⟨?_, hreports, hm.position, hm.stats, ?_, ?_⟩
  · rw [length_run, length_run]
  · rw [← output_settle, hm.transport, output_settle]
  · rw [← unread_settle, hm.transport, unread_settle]

/-- A byte of a frame is waited for, and a write takes nothing after a first byte. -/
theorem suspending_refines_blocking_stalled : ∃ (t t' : Transport) (os : List Operation),
    t ≠ t' ∧ t.settle = t'.settle ∧ t.Uninterrupted ∧
      os = [.readHeader, .readByte, .writeAll [1, 2], .flush] ∧
      (∀ x ∈ (run (unhurried os) (ofTransport (.suspending false) .standard t)).1.zip
        (run (unhurried os) (ofTransport .blocking .standard t')).1, x.1.Agrees x.2) ∧
      (run (unhurried os) (ofTransport (.suspending false) .standard t)).2.position = .poisoned := by
  let t : Transport :=
    { reads := [.data [0], .pending, .data [1, 7]], writes := [.pending, .accept 1, .accept 0] }
  let t' : Transport :=
    { reads := [.data [0], .data [1, 7]], writes := [.accept 1, .accept 0] }
  let os : List Operation := [.readHeader, .readByte, .writeAll [1, 2], .flush]
  have hsettle : t.settle = t'.settle := by decide +kernel
  have huninterrupted : t.Uninterrupted := by decide
  obtain ⟨-, hreports, hposition, -⟩ :=
    suspending_refines_blocking false .standard hsettle huninterrupted os 4
  have hpoisoned : (run (unhurried os) (ofTransport .blocking .standard t')).2.position =
      .poisoned := by decide +kernel
  exact ⟨t, t', os, by decide, hsettle, huninterrupted, rfl, hreports, hposition.trans hpoisoned⟩

end FramedStream

end Http3Framing
