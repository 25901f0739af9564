import Http3Framing.FramedStream.Opening
import Http3Framing.Proofs.Reading
import Http3Framing.Proofs.Writing

/-! The frame boundary. From the header of a frame to its close, whatever operations come in
between and however they end, the reads of the transport share what the header announced: none
asks for more than is left of it, the position says how much that is, and a frame that can be
closed has handed out exactly its payload. -/

namespace Http3Framing.FramedStream

open FramingM

namespace Operation

/-- What an operation with this report handed to its caller. An integer stands for the bytes
that spell it; an operation that stopped handed out nothing. -/
def Hands : Operation → Report → List UInt8 → Prop
  | readByte, ⟨.ok (.byte b), _⟩, bs => bs = [b]
  | readVarint, ⟨.ok (.integer v), _⟩, bs => Varint.decode? bs = some (v, [])
  | readPayload, ⟨.ok (.payload bytes), _⟩, bs => bs = bytes
  | read buffer, ⟨.ok (.count n), some after⟩, bs =>
    bs.length = n ∧ after = bs ++ buffer.drop n
  | readExact buffer, ⟨.ok .done, some after⟩, bs => bs.length = buffer.length ∧ after = bs
  | _, _, bs => bs = []

/-- A close that succeeded. -/
def closes : Operation → Report → Bool
  | closeFrame, ⟨.ok _, _⟩ => true
  | _, _ => false

end Operation

/-- What operations with these reports handed out, one after the other. -/
def Handed : List Operation → List Report → List UInt8 → Prop
  | o :: os, r :: rs, bs => ∃ first rest, bs = first ++ rest ∧ o.Hands r first ∧ Handed os rs rest
  | _, _, bs => bs = []

/-! ### One operation -/

/-- An operation kept to the open frame: it pulled some bytes of it, and if the frame is still
open it handed them out. -/
def Keeps (o : Operation) (s : FramedStream) : Prop :=
  ∃ pulled, Advances s (o.perform s).2 pulled ∧
    ((o.perform s).2.position.remaining? ≠ none → o.Hands (o.perform s).1 pulled)

/-- An operation that stays where it is. -/
theorem keeps_of_stopped {o : Operation} {s : FramedStream} {r : Report} (hs : s.Attended)
    (h : o.perform s = (r, s)) (hr : o.Hands r []) : Keeps o s := by
  refine ⟨[], ?_, fun _ => ?_⟩
  · rw [h]
    exact .refl hs
  · rw [h]
    exact hr

theorem keeps_report {α : Type} {o : Operation} {x : FramingM α} {reply : α → Reply}
    {post : Except Stop α → List UInt8 → Position → Prop} {s : FramedStream} (hs : s.Attended)
    (hx : Draws x post) (ho : ∀ s, o.perform s = report reply x s)
    (hok : ∀ a bs p, post (.ok a) bs p → o.Hands ⟨.ok (reply a), none⟩ bs)
    (herr : ∀ stop bs p, post (.error stop) bs p → p.remaining? ≠ none →
      o.Hands ⟨.stopped stop, none⟩ bs) : Keeps o s := by
  have hleaves := hx s hs
  unfold Keeps
  rw [ho]
  unfold report
  cases hr : x s with
  | ok a s' =>
    rw [hr] at hleaves
    obtain ⟨bs, ha, hb⟩ := hleaves
    exact ⟨bs, ha, fun _ => hok a bs s'.position hb⟩
  | error stop s' =>
    rw [hr] at hleaves
    obtain ⟨bs, ha, hb⟩ := hleaves
    exact ⟨bs, ha, herr stop bs s'.position hb⟩

/-- A write hands out nothing, whatever it replies. -/
theorem keeps_of_rests {α : Type} {o : Operation} {x : FramingM α} {reply : α → Reply}
    {s : FramedStream} (hs : s.Attended) (hx : Rests x) (ho : ∀ s, o.perform s = report reply x s)
    (hn : ∀ r, o.Hands r []) : Keeps o s :=
  keeps_report hs hx ho (fun _ _ _ h => h ▸ hn _) (fun _ _ _ h _ => h ▸ hn _)

theorem keeps_read {s : FramedStream} (hs : s.Attended) (buffer : List UInt8) :
    Keeps (.read buffer) s := by
  have hleaves := draws_readBlock buffer.length s hs
  unfold Keeps
  change ∃ pulled, Advances s (reportBlock buffer s).2 pulled ∧
    ((reportBlock buffer s).2.position.remaining? ≠ none →
      (Operation.read buffer).Hands (reportBlock buffer s).1 pulled)
  unfold reportBlock
  cases hr : readBlock buffer.length s with
  | ok d s' =>
    rw [hr] at hleaves
    obtain ⟨bs, ha, rfl, -⟩ := hleaves
    exact ⟨bs, ha, fun _ => ⟨rfl, rfl⟩⟩
  | error stop s' =>
    rw [hr] at hleaves
    obtain ⟨bs, ha, -, hp⟩ := hleaves
    exact ⟨bs, ha, fun h => absurd hp h⟩

theorem keeps_readExact {s : FramedStream} (hs : s.Attended) (buffer : List UInt8) :
    Keeps (.readExact buffer) s := by
  have hleaves := draws_readBlocks buffer.length buffer.length false (Nat.le_refl _) s hs
  rw [← readExact_eq] at hleaves
  unfold Keeps
  change ∃ pulled, Advances s (reportExact buffer s).2 pulled ∧
    ((reportExact buffer s).2.position.remaining? ≠ none →
      (Operation.readExact buffer).Hands (reportExact buffer s).1 pulled)
  unfold reportExact
  cases hr : FramedStream.readExact buffer.length s with
  | error stop s' =>
    rw [hr] at hleaves
    obtain ⟨_, _, hfalse⟩ := hleaves
    exact hfalse.elim
  | ok a s' =>
    rw [hr] at hleaves
    obtain ⟨ds, stop⟩ := a
    obtain ⟨bs, ha, ⟨pieces, rfl, rfl⟩, -, hall⟩ := hleaves
    refine ⟨pieces.flatten, ha, fun h => ?_⟩
    cases stop with
    | some stop => exact absurd hall h
    | none =>
      refine ⟨hall, ?_⟩
      simp only at hall
      rw [Delivery.overlay_stored, hall, List.drop_length, List.append_nil]

/-- Every operation keeps to the frame unless it is the one that opens it or the one that closes
it. -/
theorem keeps_of_not_closes {s : FramedStream} {o : Operation} (hs : s.Attended)
    (hp : o = .readHeader → s.position ≠ .idle) (hc : ¬ o.closes (o.perform s).1) : Keeps o s := by
  cases o with
  | readHeader =>
    obtain ⟨v, hv⟩ := readHeader_of_ne_idle (hp rfl)
    refine keeps_of_stopped (r := ⟨.stopped (.failed (.frame v)), none⟩) hs ?_ rfl
    simp only [Operation.perform, report, hv]
  | readPayload =>
    exact keeps_report hs draws_readPayload (fun _ => rfl) (fun _ _ _ h => h.symm)
      fun _ _ _ h hne => absurd h hne
  | readByte =>
    exact keeps_report hs draws_readByte (fun _ => rfl) (fun _ _ _ h => h)
      fun _ _ _ h hne => absurd h.2 hne
  | readVarint =>
    exact keeps_report hs draws_readVarint (fun _ => rfl) (fun _ _ _ h => Varint.form_iff.1 h)
      fun _ _ _ h hne => absurd h hne
  | read buffer => exact keeps_read hs buffer
  | readExact buffer => exact keeps_readExact hs buffer
  | closeFrame =>
    rcases closeFrame_cases s with ⟨stop, hx⟩ | ⟨-, hx⟩
    · refine keeps_of_stopped (r := ⟨.stopped stop, none⟩) hs ?_ rfl
      simp only [Operation.perform, report, hx]
    · simp only [Operation.perform, report, hx, Operation.closes, not_true_eq_false] at hc
  | write bytes => exact keeps_of_rests hs (rests_write bytes) (fun _ => rfl) fun _ => rfl
  | writeAll bytes => exact keeps_of_rests hs (rests_writeAll bytes) (fun _ => rfl) fun _ => rfl
  | flush => exact keeps_of_rests hs rests_flush (fun _ => rfl) fun _ => rfl
  | writeVarint n => exact keeps_of_rests hs (rests_writeVarint n) (fun _ => rfl) fun _ => rfl
  | writeHeader header =>
    exact keeps_of_rests hs (rests_writeHeader header) (fun _ => rfl) fun _ => rfl
  | writeFrame kind payload =>
    exact keeps_of_rests hs (rests_writeFrame kind payload) (fun _ => rfl) fun _ => rfl

/-! ### Runs -/

/-- A header that was read opens its frame; else no frame is open that was not before. -/
theorem readHeader_cases {s : FramedStream} (hs : s.Attended) :
    (∃ header s', FramedStream.readHeader s = .ok header s' ∧ s'.Attended ∧
        s'.position = .inFrame header.len) ∨
      ∃ stop s', FramedStream.readHeader s = .error stop s' ∧ s'.Attended := by
  by_cases hp : s.position = .idle
  · have hask : ask Position.betweenFrames s = .ok () s := ask_of_ok (by rw [hp]; rfl)
    have hkind := draws_readVarint s hs
    cases hx : FramedStream.readVarint s with
    | error stop s₁ =>
      rw [hx] at hkind
      obtain ⟨_, ha, _⟩ := hkind
      exact .inr ⟨stop, s₁, (bind_of_ok hask).trans (bind_of_error hx), ha.attended⟩
    | ok kind s₁ =>
      rw [hx] at hkind
      obtain ⟨_, ha, _⟩ := hkind
      have hlen : Leaves s₁ IsForm (endBreaks .truncatedHeader FramedStream.readVarint s₁) :=
        draws_readVarint.endBreaks .truncatedHeader (fun _ _ _ => rfl) s₁ ha.attended
      have hhead : FramedStream.readHeader s = _ := (bind_of_ok hask).trans (bind_of_ok hx)
      cases hy : endBreaks .truncatedHeader FramedStream.readVarint s₁ with
      | error stop s₂ =>
        rw [hy] at hlen
        obtain ⟨_, ha', _⟩ := hlen
        exact .inr ⟨stop, s₂, hhead.trans (bind_of_error hy), ha'.attended⟩
      | ok len s₂ =>
        rw [hy] at hlen
        obtain ⟨_, ha', _⟩ := hlen
        exact .inl ⟨⟨.ofVarint kind, len.toNat⟩, _, hhead.trans (bind_of_ok hy), ha'.attended, rfl⟩
  · obtain ⟨v, hv⟩ := readHeader_of_ne_idle hp
    exact .inr ⟨_, s, hv, hs⟩

theorem attended_perform {s : FramedStream} (hs : s.Attended) (o : Operation) :
    (o.perform s).2.Attended := by
  by_cases hh : o = .readHeader
  · subst hh
    rcases readHeader_cases hs with ⟨header, s', hx, ha, -⟩ | ⟨stop, s', hx, ha⟩
    · simpa only [Operation.perform, report, hx] using ha
    · simpa only [Operation.perform, report, hx] using ha
  · by_cases hc : o.closes (o.perform s).1
    · cases o with
      | closeFrame =>
        rcases closeFrame_cases s with ⟨stop, hx⟩ | ⟨-, hx⟩
        · simpa only [Operation.perform, report, hx] using hs
        · simp only [Operation.perform, report, hx]
          exact hs
      | _ => cases hc
    · obtain ⟨_, ha, _⟩ := keeps_of_not_closes hs (fun h => absurd h hh) hc
      exact ha.attended

theorem run_unhurried_cons {s : FramedStream} (hs : s.Attended) (o : Operation)
    (os : List Operation) :
    run (unhurried (o :: os)) s =
      ((o.perform s).1 :: (run (unhurried os) (o.perform s).2).1,
        (run (unhurried os) (o.perform s).2).2) := by
  change run (⟨o, none⟩ :: unhurried os) s = _
  rw [run_cons, Request.perform_none hs.1 (attended_perform hs o).1]

theorem attended_run {s : FramedStream} (hs : s.Attended) (os : List Operation) :
    (run (unhurried os) s).2.Attended := by
  induction os generalizing s with
  | nil => exact hs
  | cons o os ih =>
    rw [run_unhurried_cons hs]
    exact ih (attended_perform hs o)

theorem Advances.ne_idle {s s' : FramedStream} {bs : List UInt8} (h : Advances s s' bs)
    (hp : s.position ≠ .idle) : s'.position ≠ .idle := by
  rcases h.position with hs' | hs'
  · simp [hs']
  · cases hq : s.position with
    | idle => exact absurd hq hp
    | inFrame remaining =>
      rw [hq] at hs'
      obtain ⟨_, hr⟩ := Position.le_of_consume_inFrame hs'
      simp [hr]
    | poisoned =>
      rw [hq] at hs'
      cases hs'

/-- A poisoned stream opens no frame. -/
theorem Advances.remaining_ne_none {s s' : FramedStream} {bs : List UInt8} (h : Advances s s' bs)
    (hp : s.position ≠ .idle) (hr : s'.position.remaining? ≠ none) :
    s.position.remaining? ≠ none := by
  cases hq : s.position with
  | idle => exact absurd hq hp
  | inFrame remaining => simp [Position.remaining?]
  | poisoned =>
    rcases h.position with hs' | hs'
    · rw [hs'] at hr
      exact absurd rfl hr
    · rw [hq] at hs'
      cases hs'

/-- Operations of which none opens or closes the frame keep to it together. -/
theorem keeps_run {s : FramedStream} (hs : s.Attended) (hp : s.position ≠ .idle)
    (os : List Operation)
    (hc : ∀ x ∈ os.zip (run (unhurried os) s).1, ¬ x.1.closes x.2) :
    ∃ pulled, Advances s (run (unhurried os) s).2 pulled ∧
      ((run (unhurried os) s).2.position.remaining? ≠ none →
        Handed os (run (unhurried os) s).1 pulled) := by
  induction os generalizing s with
  | nil => exact ⟨[], .refl hs, fun _ => rfl⟩
  | cons o os ih =>
    rw [run_unhurried_cons hs] at hc ⊢
    have hfirst : ¬ o.closes (o.perform s).1 := hc (o, _) List.mem_cons_self
    obtain ⟨first, ha, hhands⟩ := keeps_of_not_closes hs (fun _ => hp) hfirst
    obtain ⟨rest, ha', hhanded⟩ := ih ha.attended (ha.ne_idle hp)
      fun x hx => hc x (List.mem_cons_of_mem _ hx)
    refine ⟨first ++ rest, ha.trans ha', fun hr => ⟨first, rest, rfl, ?_, hhanded hr⟩⟩
    exact hhands (ha'.remaining_ne_none (ha.ne_idle hp) hr)

/-! ### Frames -/

/-- A run on `s` that has read a header and not closed its frame since. -/
structure Visit (s : FramedStream) where
  before : List Operation
  header : Frame.Header
  during : List Operation
  opened : (run (unhurried (before ++ [.readHeader])) s).1.getLast? =
    some ⟨.ok (.header header), none⟩
  unclosed : ∀ x ∈ during.zip (run (unhurried during)
      (run (unhurried (before ++ [.readHeader])) s).2).1, ¬ x.1.closes x.2

namespace Visit

variable {s : FramedStream}

/-- The stream behind the last byte of the header. -/
def start (v : Visit s) : FramedStream := (run (unhurried (v.before ++ [.readHeader])) s).2

/-- The stream after the operations inside the frame. -/
def now (v : Visit s) : FramedStream := (run (unhurried v.during) v.start).2

/-- What the operations inside the frame reported. -/
def reports (v : Visit s) : List Report := (run (unhurried v.during) v.start).1

/-- The calls that the operations inside the frame made. -/
def calls (v : Visit s) : List Call :=
  v.now.transport.callsSince v.start.transport.calls.size

/-- The bytes that these calls brought in. -/
def pulled (v : Visit s) : List UInt8 := v.calls.flatMap Call.delivered

theorem start_eq (hs : s.Attended) (v : Visit s) :
    v.start.Attended ∧ v.start.position = .inFrame v.header.len := by
  have hopened := v.opened
  have hbefore := attended_run hs v.before
  let s₀ := (run (unhurried v.before) s).2
  have hrun : run (unhurried (v.before ++ [.readHeader])) s =
      ((run (unhurried v.before) s).1 ++ [(Operation.readHeader.perform s₀).1],
        (Operation.readHeader.perform s₀).2) := by
    unfold unhurried
    rw [List.map_append, run_append]
    change (_ ++ (run (unhurried [.readHeader]) s₀).1, (run (unhurried [.readHeader]) s₀).2) = _
    rw [run_unhurried_cons hbefore]
    rfl
  unfold start
  rw [hrun] at hopened ⊢
  simp only [List.getLast?_concat, Option.some.injEq] at hopened
  rcases readHeader_cases hbefore with ⟨header, s', hx, ha, hp⟩ | ⟨stop, s', hx, -⟩
  · simp only [Operation.perform, report, s₀, hx, Report.mk.injEq, Result.ok.injEq,
      Reply.header.injEq, and_true] at hopened ⊢
    rw [← hopened]
    exact ⟨ha, hp⟩
  · simp only [Operation.perform, report, s₀, hx, Report.mk.injEq, reduceCtorEq,
      false_and] at hopened

end Visit

/-- Until the frame is closed, the position counts down what the header announced by the bytes that
were pulled, in order and without loss, and every read asks for a byte or more and for no more than
is left. When the frame can be closed, exactly its payload was pulled and handed out. -/
theorem frame_boundary_kept {s : FramedStream} (hs : s.Attended) (v : Visit s) :
    v.now.position ≠ .idle ∧
      v.start.transport.unread = v.pulled ++ v.now.transport.unread ∧
      (∀ remaining, v.now.position = .inFrame remaining →
        v.pulled.length + remaining = v.header.len) ∧
      (∀ earlier want answer later, v.calls = earlier ++ .read want answer :: later →
        1 ≤ want ∧ want + (earlier.flatMap Call.delivered).length ≤ v.header.len) ∧
      v.pulled.length ≤ v.header.len ∧
      ((Request.perform ⟨.closeFrame, none⟩ v.now).1.result = .ok .done →
        v.pulled.length = v.header.len ∧ Handed v.during v.reports v.pulled) := by
  obtain ⟨hstart, hframe⟩ := v.start_eq hs
  have hopen : v.start.position ≠ .idle := by simp [hframe]
  obtain ⟨pulled, ha, hhanded⟩ := keeps_run hstart hopen v.during v.unclosed
  change Advances v.start v.now pulled at ha
  change v.now.position.remaining? ≠ none → Handed v.during v.reports pulled at hhanded
  obtain ⟨made, hm, rfl, hadmits⟩ := ha.moves
  have hcalls : v.calls = made := by
    unfold Visit.calls Transport.callsSince
    rw [hm.calls, ← Array.length_toList, List.drop_left]
  have hpulled : made.flatMap Call.delivered = v.pulled := by rw [← hcalls]; rfl
  rw [hframe] at hadmits
  have hwithin : Call.Within v.header.len v.calls := hcalls ▸ hadmits
  -- an open frame owes what was not pulled of it
  have hcount (remaining : Nat) (hp : v.now.position = .inFrame remaining) :
      v.pulled.length + remaining = v.header.len := by
    rcases ha.position with hq | hq
    · rw [hq] at hp
      cases hp
    · rw [hframe, hp, hpulled] at hq
      obtain ⟨hle, hr⟩ := Position.le_of_consume_inFrame hq
      cases hr
      omega
  refine ⟨ha.ne_idle hopen, hpulled ▸ hm.unread, hcount, ?_, hwithin.length_le, fun hclose => ?_⟩
  · intro earlier want answer later hsplit
    exact (hsplit ▸ hwithin).want_le
  · rw [Request.perform_none hm.attended.1 (attended_perform hm.attended _).1] at hclose
    rcases closeFrame_cases v.now with ⟨stop, hx⟩ | ⟨hp, -⟩
    · simp only [Operation.perform, report, hx, reduceCtorEq] at hclose
    · refine ⟨hcount 0 hp, hpulled ▸ hhanded ?_⟩
      simp [hp, Position.remaining?]

/-- A payload of three bytes, read byte by byte and in a block after a header that is refused. -/
theorem frame_boundary_kept_three : ∃ (s : FramedStream) (v : Visit s), s.Attended ∧
    v.header = ⟨.data, 3⟩ ∧ v.during = [.readByte, .readHeader, .read [0, 0, 0, 0]] ∧
    v.now.transport.unread = [0xdd] ∧ v.pulled.length = 3 ∧ Handed v.during v.reports v.pulled := by
  let t : Transport :=
    { reads := [.data [0, 3, 0xaa], .failure IoKind.interrupted, .data [0xbb, 0xcc, 0xdd]] }
  let s : FramedStream := ofTransport .suspending .standard t
  let v : Visit s :=
    ⟨[], ⟨.data, 3⟩, [.readByte, .readHeader, .read [0, 0, 0, 0]], by decide +kernel,
      by decide +kernel⟩
  have hs : s.Attended := ⟨rfl, by simp [s, t, ofTransport, Transport.Honest]⟩
  have hclose : (Request.perform ⟨.closeFrame, none⟩ v.now).1.result = .ok .done := by
    decide +kernel
  have hunread : v.now.transport.unread = [0xdd] := by decide +kernel
  obtain ⟨-, -, -, -, -, hpayload⟩ := frame_boundary_kept hs v
  exact ⟨s, v, hs, rfl, rfl, hunread, hpayload hclose⟩

end Http3Framing.FramedStream
