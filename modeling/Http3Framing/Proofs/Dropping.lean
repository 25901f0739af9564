import Http3Framing.Proofs.Boundary
import Http3Framing.Proofs.Outcome

/-! What a dropped read leaves behind. A caller that suspends may give up while the transport is not
ready and go on with other requests. A block is counted when it has arrived, so a dropped one leaves
nothing behind; a byte is counted before it is waited for, so each byte that was given up stays counted
without having been pulled. From the header of a frame to its close the position counts down what was
pulled and what was given up in this way. -/

namespace Http3Framing.FramedStream

open FramingM

namespace Operation

/-- The operations that wait for single bytes of a payload. -/
def byByte : Operation → Bool
  | readByte | readVarint => true
  | _ => false

/-- The operation was dropped while it waited for a byte. -/
def givesUp (o : Operation) (r : Report) : Bool :=
  o.byByte && r.result = .stopped .dropped

end Operation

/-- How many of the requests with these reports were dropped while they waited for a byte. -/
def givenUp (rs : List Request) (reports : List Report) : Nat :=
  (rs.zip reports).countP fun x => x.1.operation.givesUp x.2

theorem givenUp_cons (r : Request) (rs : List Request) (report : Report) (reports : List Report) :
    givenUp (r :: rs) (report :: reports) =
      (if r.operation.givesUp report then 1 else 0) + givenUp rs reports := by
  unfold givenUp
  rw [List.zip_cons_cons, List.countP_cons, Nat.add_comm]

/-- From `s` to `s'` these calls were made, and the position has counted what they brought in and
`lost` bytes besides, or it is poisoned. -/
structure Charged (s s' : FramedStream) (made : List Call) (lost : Nat) : Prop where
  honest : s'.transport.Honest
  calls : s'.transport.calls.toList = s.transport.calls.toList ++ made
  position : s'.position = .poisoned ∨
    s.position.consume ((made.flatMap Call.delivered).length + lost) = .ok s'.position

section

variable {s s₁ s₂ s' : FramedStream} {made : List Call} {r : Request}

theorem Charged.refl (h : s.transport.Honest) : Charged s s [] 0 := by
  refine ⟨h, (List.append_nil _).symm, ?_⟩
  by_cases hp : s.position = .poisoned
  · exact .inl hp
  · exact .inr (Position.consume_zero hp)

theorem Charged.trans {cs ds : List Call} {m n : Nat} (h : Charged s s₁ cs m)
    (h' : Charged s₁ s₂ ds n) : Charged s s₂ (cs ++ ds) (m + n) := by
  refine ⟨h'.honest, by rw [h'.calls, h.calls, List.append_assoc], ?_⟩
  rcases h'.position with hp' | hp'
  · exact .inl hp'
  rcases h.position with hp | hp
  · rw [hp] at hp'
    cases hp'
  · right
    have hsum : ((cs ++ ds).flatMap Call.delivered).length + (m + n) =
        ((cs.flatMap Call.delivered).length + m) + ((ds.flatMap Call.delivered).length + n) := by
      rw [List.flatMap_append, List.length_append]
      omega
    rw [hsum]
    exact Position.consume_add hp hp'

theorem Charged.ne_idle {lost : Nat} (h : Charged s s' made lost) (hp : s.position ≠ .idle) :
    s'.position ≠ .idle := by
  rcases h.position with hq | hq
  · simp [hq]
  · cases hs : s.position with
    | idle => exact absurd hs hp
    | inFrame remaining =>
      rw [hs] at hq
      obtain ⟨-, hr⟩ := Position.le_of_consume_inFrame hq
      simp [hr]
    | poisoned =>
      rw [hs] at hq
      cases hq

/-- What is left of an open frame. -/
theorem Charged.remaining {lost len remaining : Nat} (h : Charged s s' made lost)
    (hs : s.position = .inFrame len) (hs' : s'.position = .inFrame remaining) :
    (made.flatMap Call.delivered).length + lost + remaining = len := by
  rcases h.position with hq | hq
  · rw [hs'] at hq
    cases hq
  · rw [hs, hs'] at hq
    obtain ⟨hle, hr⟩ := Position.le_of_consume_inFrame hq
    cases hr
    omega

/-! ### One request -/

theorem Did.honest {o : Operation} {report : Report} (h : Did o s (report, s'))
    (hs : s.transport.Honest) : s'.transport.Honest := by
  cases h with
  | misused => exact hs
  | opened _ _ listens => exact (listens.honest hs).1
  | closed => exact hs
  | read _ _ listens => exact (listens.honest hs).1
  | sent _ speaks => exact speaks.honest hs

/-- Giving up is no failure of the stream. -/
theorem Did.usable_of_dropped {o : Operation} {report : Report} (h : Did o s (report, s'))
    (hu : s.position ≠ .poisoned) (hr : report.result = .stopped .dropped) :
    s'.position ≠ .poisoned := by
  cases h with
  | misused => exact hu
  | opened => cases hr
  | closed => cases hr
  | read _ _ _ ended =>
    rw [hr] at ended
    cases ended with
    | dropped counted => exact Position.ne_poisoned_of_consume_eq counted
  | sent _ _ spoken =>
    rw [hr] at spoken
    cases spoken with
    | dropped _ after => exact after ▸ hu

/-- A close that succeeded found nothing owed. -/
theorem exhausted_of_closed {patience : Patience}
    (h : (Request.perform ⟨.closeFrame, patience⟩ s).1.result = .ok .done) :
    s.position = .inFrame 0 := by
  obtain ⟨s₁, hdid, -⟩ := did_request ⟨.closeFrame, patience⟩ (usable_of_ok h nofun)
  obtain ⟨n, hstep, -⟩ := hdid.step h
  exact hstep.of_closeFrame

/-- No request makes a transport dishonest. -/
theorem honest_request (r : Request) (hs : s.transport.Honest) : (r.perform s).2.transport.Honest := by
  by_cases hu : s.position = .poisoned
  · obtain ⟨report, hx, -⟩ := request_of_poisoned r hu
    rw [hx]
    exact hs
  · obtain ⟨s₁, hdid, hs₁⟩ := did_request r hu
    rw [hs₁]
    exact hdid.honest hs

theorem honest_run (rs : List Request) (hs : s.transport.Honest) :
    (run rs s).2.transport.Honest := by
  induction rs generalizing s with
  | nil => exact hs
  | cons r rs ih => exact ih (honest_request r hs)

/-- Inside a frame no header is waited for. -/
theorem Operation.ahead_of_fits {o : Operation} {remaining : Nat}
    (fits : o.misuse? (.inFrame remaining) = none) : o.ahead = if o.byByte then 1 else 0 := by
  cases o with
  | readHeader => cases fits
  | _ => rfl

/-- A read is charged for what it pulled, and for the byte that it gave up. -/
theorem Listens.charged {o : Operation} {report : Report} {remaining : Nat} (h : Listens s s' made)
    (ended : Ended o.Takes o.ahead True s s' made report.result.outcome)
    (hs : s.transport.Honest) (hp : s.position = .inFrame remaining)
    (fits : o.misuse? s.position = none) :
    Charged s s' made (if o.givesUp report then 1 else 0) := by
  refine ⟨(h.honest hs).1, h.calls, ?_⟩
  cases hr : report.result with
  | ok reply =>
    rw [hr] at ended
    cases ended with
    | done counted _ arrived =>
      right
      simpa [Operation.givesUp, hr, arrived hs] using counted
  | stopped stop =>
    rw [hr] at ended
    cases ended with
    | @dropped n counted _ arrived =>
      right
      have hgives : o.givesUp report = o.byByte := by simp [Operation.givesUp, hr]
      have hlost : (made.flatMap Call.delivered).length + (if o.byByte then 1 else 0) = n := by
        rw [← Operation.ahead_of_fits (hp ▸ fits)]
        exact arrived hs
      rw [hgives, hlost]
      exact counted
    | poisoned _ after => exact .inl after
    | ended _ before =>
      rw [hp] at before
      cases before
    | overrun dishonest => exact absurd hs dishonest

/-- A write is charged for nothing. -/
theorem Speaks.charged {o : Operation} {report : Report} {told : Reply → List UInt8 → Prop}
    {cut : List UInt8 → List UInt8 → Prop} {large : Nat → Prop} {frames : Nat} (sends : o.sends)
    (h : Speaks s s' made)
    (spoken : Spoken told cut large frames s s' made report.result.outcome)
    (hs : s.transport.Honest) (hu : s.position ≠ .poisoned) :
    Charged s s' made (if o.givesUp report then 1 else 0) := by
  have hkept : o.givesUp report = false := by
    cases o with
    | readByte | readVarint => cases sends
    | _ => rfl
  have hstays (hq : s'.position = s.position) :
      s.position.consume ((made.flatMap Call.delivered).length + 0) = .ok s'.position := by
    rw [Call.flatMap_delivered_of_not_isRead h.silent, hq]
    exact Position.consume_zero hu
  refine ⟨h.honest hs, h.calls, ?_⟩
  rw [hkept]
  cases hr : report.result with
  | ok reply =>
    rw [hr] at spoken
    cases spoken with
    | done _ after => exact .inr (hstays after)
  | stopped stop =>
    rw [hr] at spoken
    cases spoken with
    | refused _ same => exact .inr (hstays (by rw [same]))
    | broken _ _ after => exact .inl after
    | dropped _ after => exact .inr (hstays after)

/-- A request that neither opens nor closes a frame is charged for what it pulled, and for a byte that it
gave up. -/
theorem charged_request (r : Request) (hs : s.transport.Honest) (hp : s.position ≠ .idle)
    (hc : ¬ r.operation.closes (r.perform s).1) :
    ∃ made, Charged s (r.perform s).2 made
      (if r.operation.givesUp (r.perform s).1 then 1 else 0) := by
  cases hq : s.position with
  | idle => exact absurd hq hp
  | poisoned =>
    obtain ⟨report, hx, hreport⟩ := request_of_poisoned r hq
    have hkept : ¬ r.operation.givesUp report := by
      unfold Operation.givesUp
      rcases hreport with h | ⟨-, h⟩ <;> simp [h]
    simp only [hx, if_neg hkept]
    exact ⟨[], hs, (List.append_nil _).symm, .inl hq⟩
  | inFrame remaining =>
    have hu : s.position ≠ .poisoned := by simp [hq]
    obtain ⟨s₁, hdid, hs₁⟩ := did_request r hu
    rw [hs₁]
    generalize (r.perform s).1 = report at *
    suffices h : ∃ made, Charged { s with patience := s.flavour.patience r.patience } s₁ made
        (if r.operation.givesUp report then 1 else 0) by
      obtain ⟨made, h⟩ := h
      exact ⟨made, h.honest, h.calls, h.position⟩
    cases hdid with
    | misused =>
      refine ⟨[], hs, (List.append_nil _).symm, .inr ?_⟩
      simpa [Operation.givesUp] using Position.consume_zero hu
    | opened _ before => exact absurd before hp
    | closed is => simp [is, Operation.closes] at hc
    | read _ fits listens ended => exact ⟨_, listens.charged ended hs hq fits⟩
    | sent sends speaks spoken => exact ⟨_, speaks.charged sends spoken hs hu⟩

/-- A request that is dropped before it has pulled anything gives up at most the byte that it waited
for. -/
theorem charged_of_dropped {r : Request} {remaining : Nat} (hs : s.transport.Honest)
    (hp : s.position = .inFrame remaining) (hr : (r.perform s).1.result = .stopped .dropped)
    (hnone : (r.perform s).2.transport.delivered = s.transport.delivered) :
    ∃ left, (r.perform s).2.position = .inFrame left ∧
      left + (if r.operation.byByte then 1 else 0) = remaining := by
  have hu : s.position ≠ .poisoned := by simp [hp]
  have hclose : ¬ r.operation.closes (r.perform s).1 := by
    unfold Operation.closes
    split
    · next heq =>
      rw [heq] at hr
      cases hr
    · exact Bool.false_ne_true
  obtain ⟨made, hcharged⟩ := charged_request r hs (by simp [hp]) hclose
  have husable : (r.perform s).2.position ≠ .poisoned := by
    obtain ⟨s₁, hdid, hs₁⟩ := did_request r hu
    rw [hs₁]
    exact hdid.usable_of_dropped hu hr
  have hempty : made.flatMap Call.delivered = [] := by
    unfold Transport.delivered at hnone
    rw [hcharged.calls, List.flatMap_append] at hnone
    exact List.append_right_eq_self.1 hnone
  have hgives : r.operation.givesUp (r.perform s).1 = r.operation.byByte := by
    simp [Operation.givesUp, hr]
  cases hq : (r.perform s).2.position with
  | idle => exact absurd hq (hcharged.ne_idle (by simp [hp]))
  | poisoned => exact absurd hq husable
  | inFrame left =>
    have hsum := hcharged.remaining hp hq
    rw [hempty, hgives, List.length_nil, Nat.zero_add, Nat.add_comm] at hsum
    exact ⟨left, rfl, hsum⟩

/-- Requests of which none opens or closes the frame are charged together. -/
theorem charged_run (rs : List Request) (hs : s.transport.Honest) (hp : s.position ≠ .idle)
    (hc : ∀ x ∈ rs.zip (run rs s).1, ¬ x.1.operation.closes x.2) :
    ∃ made, Charged s (run rs s).2 made (givenUp rs (run rs s).1) := by
  induction rs generalizing s with
  | nil => exact ⟨[], .refl hs⟩
  | cons r rs ih =>
    have hfirst : ¬ r.operation.closes (r.perform s).1 := hc (r, _) List.mem_cons_self
    obtain ⟨cs, hcharged⟩ := charged_request r hs hp hfirst
    obtain ⟨ds, hcharged'⟩ := ih hcharged.honest (hcharged.ne_idle hp)
      fun x hx => hc x (List.mem_cons_of_mem _ hx)
    refine ⟨cs ++ ds, ?_⟩
    rw [run_cons, givenUp_cons]
    exact hcharged.trans hcharged'

end

/-! ### Frames -/

/-- A run on `s`, of requests that may be dropped, that has read a header and not closed its frame
since. -/
structure Stay (s : FramedStream) where
  before : List Request
  /-- The patience with which the header was read. -/
  patience : Patience
  header : Frame.Header
  during : List Request
  opened : (run (before ++ [⟨.readHeader, patience⟩]) s).1.getLast? =
    some ⟨.ok (.header header), none⟩
  unclosed : ∀ x ∈ during.zip (run during (run (before ++ [⟨.readHeader, patience⟩]) s).2).1,
    ¬ x.1.operation.closes x.2

namespace Stay

variable {s : FramedStream}

/-- The stream behind the last byte of the header. -/
def start (v : Stay s) : FramedStream := (run (v.before ++ [⟨.readHeader, v.patience⟩]) s).2

/-- The stream after the requests inside the frame. -/
def now (v : Stay s) : FramedStream := (run v.during v.start).2

/-- What the requests inside the frame reported. -/
def reports (v : Stay s) : List Report := (run v.during v.start).1

/-- The bytes that were pulled inside the frame. -/
def pulled (v : Stay s) : List UInt8 :=
  (v.now.transport.callsSince v.start.transport.calls.size).flatMap Call.delivered

/-- How many requests inside the frame were dropped while they waited for a byte. -/
def lost (v : Stay s) : Nat := givenUp v.during v.reports

theorem start_position (v : Stay s) : v.start.position = .inFrame v.header.len := by
  have hopened := v.opened
  let s₀ := (run v.before s).2
  have hrun : run (v.before ++ [⟨.readHeader, v.patience⟩]) s =
      ((run v.before s).1 ++ [(Request.perform ⟨.readHeader, v.patience⟩ s₀).1],
        (Request.perform ⟨.readHeader, v.patience⟩ s₀).2) := run_append _ _ _
  unfold start
  rw [hrun] at hopened ⊢
  simp only [List.getLast?_concat, Option.some.injEq] at hopened
  have hresult : (Request.perform ⟨.readHeader, v.patience⟩ s₀).1.result = .ok (.header v.header) :=
    congrArg Report.result hopened
  obtain ⟨s₁, hdid, hs₁⟩ := did_request ⟨.readHeader, v.patience⟩
    (usable_of_ok hresult fun h => by cases h)
  obtain ⟨n, hstep, -⟩ := hdid.step hresult
  rw [hs₁]
  exact hstep.of_readHeader

end Stay

/-- Until the frame is closed, the position counts down what the header announced by the bytes that were
pulled and by the bytes that were given up, one for each single byte and each integer that was dropped.
So a read that is dropped before it has pulled anything leaves the count as it was if it was for a block
and lowers it by one if it was for a byte, and the frame can be closed only when both together make up
its payload. -/
theorem frame_counts_given_up {s : FramedStream} (hs : s.transport.Honest) (v : Stay s) :
    v.now.position ≠ .idle ∧
      (∀ remaining, v.now.position = .inFrame remaining →
        v.pulled.length + v.lost + remaining = v.header.len) ∧
      (∀ (r : Request) (remaining : Nat), v.now.position = .inFrame remaining →
        (r.perform v.now).1.result = .stopped .dropped →
        (r.perform v.now).2.transport.delivered = v.now.transport.delivered →
        ∃ left, (r.perform v.now).2.position = .inFrame left ∧
          left + (if r.operation.byByte then 1 else 0) = remaining) ∧
      ∀ patience, (Request.perform ⟨.closeFrame, patience⟩ v.now).1.result = .ok .done →
        v.pulled.length + v.lost = v.header.len := by
  have hstart : v.start.transport.Honest := honest_run _ hs
  have hnow : v.now.transport.Honest := honest_run _ hstart
  have hframe := v.start_position
  have hopen : v.start.position ≠ .idle := by simp [hframe]
  obtain ⟨made, hcharged⟩ := charged_run v.during hstart hopen v.unclosed
  change Charged v.start v.now made v.lost at hcharged
  have hpulled : v.pulled = made.flatMap Call.delivered := by
    unfold Stay.pulled Transport.callsSince
    rw [hcharged.calls, ← Array.length_toList, List.drop_left]
  have hcount (remaining : Nat) (hp : v.now.position = .inFrame remaining) :
      v.pulled.length + v.lost + remaining = v.header.len := by
    rw [hpulled]
    exact hcharged.remaining hframe hp
  exact ⟨hcharged.ne_idle hopen, hcount, fun r remaining hp hr hnone =>
    charged_of_dropped hnow hp hr hnone, fun patience hclose => hcount 0 (exhausted_of_closed hclose)⟩

/-- Of a payload of two bytes the first is given up and the second pulled; the frame is closed with a
byte of its payload unread. -/
theorem frame_counts_given_up_two : ∃ (s : FramedStream) (v : Stay s), s.transport.Honest ∧
    v.header = ⟨.data, 2⟩ ∧ v.during = [⟨.readByte, some 1⟩, ⟨.readByte, none⟩] ∧
    v.pulled = [0xaa] ∧ v.now.transport.unread = [0xbb] ∧ v.pulled.length + v.lost = 2 := by
  let t : Transport := { reads := [.data [0, 2], .pending, .data [0xaa, 0xbb]] }
  let s : FramedStream := ofTransport .suspending .standard t
  let v : Stay s :=
    ⟨[], none, ⟨.data, 2⟩, [⟨.readByte, some 1⟩, ⟨.readByte, none⟩], by decide +kernel,
      by decide +kernel⟩
  have hs : s.transport.Honest := by simp [s, t, ofTransport, Transport.Honest]
  have hclose : (Request.perform ⟨.closeFrame, none⟩ v.now).1.result = .ok .done := by
    decide +kernel
  have hpulled : v.pulled = [0xaa] := by decide +kernel
  have hunread : v.now.transport.unread = [0xbb] := by decide +kernel
  obtain ⟨-, -, -, hclosed⟩ := frame_counts_given_up hs v
  exact ⟨s, v, hs, rfl, rfl, hpulled, hunread, hclosed none hclose⟩

/-- The position does not count the pulled bytes alone: a byte that was given up before anything was
pulled leaves nothing owed of a payload of one. -/
theorem frame_counts_not_only_pulled : ¬ ∀ (s : FramedStream) (v : Stay s), s.transport.Honest →
    ∀ remaining, v.now.position = .inFrame remaining →
      v.pulled.length + remaining = v.header.len := by
  intro h
  let t : Transport := { reads := [.data [0, 1], .pending, .data [0xaa]] }
  let s : FramedStream := ofTransport .suspending .standard t
  let v : Stay s :=
    ⟨[], none, ⟨.data, 1⟩, [⟨.readByte, some 1⟩], by decide +kernel, by decide +kernel⟩
  have hs : s.transport.Honest := by simp [s, t, ofTransport, Transport.Honest]
  have hp : v.now.position = .inFrame 0 := by decide +kernel
  have hpulled : v.pulled = [] := by decide +kernel
  have hcount := h s v hs 0 hp
  rw [hpulled] at hcount
  cases hcount

end Http3Framing.FramedStream
