import Http3Framing.Proofs.Dropping

/-! Poison is final. Nothing that is asked of a poisoned stream reaches the transport or moves a
counter, and whatever is asked is refused as poisoned, but for filling a buffer of no bytes, which
asks for nothing. A stream that was poisoned by a read beyond the open frame has pulled all that the
frame still owed, so what is left to read begins behind the frame, less the bytes that were counted
for a caller that gave them up. -/

namespace Http3Framing.FramedStream

section

variable {s s' : FramedStream} {o : Operation} {report : Report}

/-! ### One request -/

/-- A request that went beyond the open frame has pulled all that the frame owed. -/
theorem Did.crossed {f : Failure} (h : Did o s (report, s'))
    (hr : report.result = .stopped (.failed f)) (hf : f.crosses) (hs : s.transport.Honest) :
    s'.position = .poisoned ∧ ∃ made,
      s'.transport.calls.toList = s.transport.calls.toList ++ made ∧
        s.position = .inFrame (made.flatMap Call.delivered).length := by
  cases h with
  | @misused v breach =>
    cases hr
    have hmisuse := Operation.isMisuse_of_misuse? breach
    cases v with
    | limitExceeded => cases hmisuse
    | _ => cases hf
  | opened => cases hr
  | closed => cases hr
  | read _ _ listens ended =>
    rw [hr] at ended
    cases ended with
    | poisoned _ after crossed => exact ⟨after, _, listens.calls, crossed hf hs⟩
    | ended => cases hf
  | sent _ _ spoken =>
    rw [hr] at spoken
    cases spoken with
    | refused => cases hf
    | broken => cases hf

theorem crossed_request (r : Request) {f : Failure}
    (hr : (r.perform s).1.result = .stopped (.failed f)) (hf : f.crosses)
    (hs : s.transport.Honest) :
    (r.perform s).2.position = .poisoned ∧ ∃ made,
      (r.perform s).2.transport.calls.toList = s.transport.calls.toList ++ made ∧
        s.position = .inFrame (made.flatMap Call.delivered).length := by
  have hu : s.position ≠ .poisoned := by
    intro hp
    obtain ⟨report, hx, hreport⟩ := request_of_poisoned r hp
    rw [hx] at hr
    rcases hreport with h | ⟨-, h⟩
    · cases h.symm.trans hr
      cases hf
    · cases h.symm.trans hr
  obtain ⟨s₁, hdid, hs₁⟩ := did_request r hu
  rw [hs₁]
  exact hdid.crossed hr hf hs

/-- What the calls of a request brought in came off the front of what was to be read. -/
theorem Did.pulls (h : Did o s (report, s')) :
    ∃ made, s'.transport.calls.toList = s.transport.calls.toList ++ made ∧
      s.transport.unread = made.flatMap Call.delivered ++ s'.transport.unread := by
  cases h with
  | misused => exact ⟨[], (List.append_nil _).symm, rfl⟩
  | opened _ _ listens => exact ⟨_, listens.calls, listens.unread⟩
  | closed => exact ⟨[], (List.append_nil _).symm, rfl⟩
  | read _ _ listens => exact ⟨_, listens.calls, listens.unread⟩
  | sent _ speaks =>
    refine ⟨_, speaks.calls, ?_⟩
    rw [Call.flatMap_delivered_of_not_isRead speaks.silent]
    unfold Transport.unread
    rw [speaks.reads]
    rfl

/-- Between frames only a header opens a frame. -/
theorem Did.opens {remaining : Nat} (h : Did o s (report, s')) (hs : s.transport.Honest)
    (hp : s.position = .idle) (hq : s'.position = .inFrame remaining) :
    ∃ header, o = .readHeader ∧ report = ⟨.ok (.header header), none⟩ := by
  have hidle (h : s'.position = .idle) : False := by cases h.symm.trans hq
  cases h with
  | misused => exact (hidle hp).elim
  | @opened header _ _ is => exact ⟨header, is, rfl⟩
  | closed => exact (hidle rfl).elim
  | read _ _ _ ended =>
    cases ho : report.result.outcome with
    | ok reply =>
      rw [ho] at ended
      cases ended with
      | done counted =>
        rw [hp] at counted
        exact (hidle (Except.ok.inj counted).symm).elim
    | error stop =>
      rw [ho] at ended
      cases ended with
      | dropped counted =>
        rw [hp] at counted
        exact (hidle (Except.ok.inj counted).symm).elim
      | poisoned _ after => cases after.symm.trans hq
      | ended _ _ after => exact (hidle after).elim
      | overrun dishonest => exact absurd hs dishonest
  | sent _ _ spoken =>
    cases ho : report.result.outcome with
    | ok reply =>
      rw [ho] at spoken
      cases spoken with
      | done _ after => exact (hidle (after.trans hp)).elim
    | error stop =>
      rw [ho] at spoken
      cases spoken with
      | refused _ same => exact (hidle (same ▸ hp)).elim
      | broken _ _ after => cases after.symm.trans hq
      | dropped _ after => exact (hidle (after.trans hp)).elim

/-- Only a close that succeeds closes a frame. -/
theorem Operation.eq_of_closes (h : o.closes report) :
    o = .closeFrame ∧ ∃ reply, report.result = .ok reply := by
  unfold Operation.closes at h
  split at h
  · exact ⟨rfl, _, rfl⟩
  · cases h

theorem not_closes_of_stopped {stop : Stop} (hr : report.result = .stopped stop) :
    ¬ o.closes report := by
  intro h
  obtain ⟨-, reply, hok⟩ := Operation.eq_of_closes h
  cases hok.symm.trans hr

/-- A frame that is open after a request was not closed by it. -/
theorem not_closes_of_inFrame {r : Request} {remaining : Nat} (hu : s.position ≠ .poisoned)
    (hq : (r.perform s).2.position = .inFrame remaining) :
    ¬ r.operation.closes (r.perform s).1 := by
  intro h
  obtain ⟨hclose, reply, hok⟩ := Operation.eq_of_closes h
  obtain ⟨s₁, hdid, hs₁⟩ := did_request r hu
  obtain ⟨n, hstep, -⟩ := hdid.step hok
  rw [hs₁] at hq
  rw [hclose] at hstep
  change s₁.position = .inFrame remaining at hq
  rw [hq] at hstep
  generalize s.position = p at hstep
  cases hstep with
  | took takes => cases takes
  | sent sends => cases sends

/-! ### Runs -/

/-- Whatever is asked of a poisoned stream, it stays as it is, and no frame is closed. -/
theorem run_of_poisoned (rs : List Request) (hp : s.position = .poisoned) :
    (∃ patience, (run rs s).2 = { s with patience }) ∧
      (∀ x ∈ rs.zip (run rs s).1, ¬ x.1.operation.closes x.2) ∧ givenUp rs (run rs s).1 = 0 := by
  induction rs generalizing s with
  | nil => exact ⟨⟨s.patience, rfl⟩, fun x hx => absurd hx List.not_mem_nil, rfl⟩
  | cons r rs ih =>
    obtain ⟨report, hx, hreport⟩ := request_of_poisoned r hp
    obtain ⟨hstays, hnone, hkept⟩ := ih (s := { s with patience := none }) hp
    rw [run_cons, hx]
    have hopen : ¬ r.operation.closes report := by
      rcases hreport with h | ⟨ho, -⟩
      · exact not_closes_of_stopped h
      · rw [ho]
        exact Bool.false_ne_true
    have hgives : r.operation.givesUp report = false := by
      unfold Operation.givesUp
      rcases hreport with h | ⟨-, h⟩ <;> simp [h]
    refine ⟨hstays, ?_, ?_⟩
    · rw [List.zip_cons_cons, List.forall_mem_cons]
      exact ⟨hopen, hnone⟩
    · rw [givenUp_cons, hgives, hkept]
      rfl

/-- A report of a run is the one of some request of it. -/
theorem exists_of_mem_run {rs : List Request} (h : report ∈ (run rs s).1) :
    ∃ before r after, rs = before ++ r :: after ∧ report = (r.perform (run before s).2).1 := by
  induction rs generalizing s with
  | nil => exact absurd h List.not_mem_nil
  | cons r rs ih =>
    rw [run_cons] at h
    rcases List.mem_cons.1 h with rfl | h
    · exact ⟨[], r, rs, rfl, rfl⟩
    · obtain ⟨before, r', after, rfl, hreport⟩ := ih h
      exact ⟨r :: before, r', after, rfl, hreport⟩

/-- The requests of a run, each with its report. -/
theorem zip_run_append (rs more : List Request) (s : FramedStream) :
    (rs ++ more).zip (run (rs ++ more) s).1 =
      rs.zip (run rs s).1 ++ more.zip (run more (run rs s).2).1 := by
  rw [run_append]
  exact List.zip_append (length_run rs s).symm

/-- What the calls of a run brought in came off the front of what was to be read. -/
theorem run_pulls (rs : List Request) (s : FramedStream) :
    ∃ made, (run rs s).2.transport.calls.toList = s.transport.calls.toList ++ made ∧
      s.transport.unread = made.flatMap Call.delivered ++ (run rs s).2.transport.unread := by
  induction rs generalizing s with
  | nil => exact ⟨[], (List.append_nil _).symm, rfl⟩
  | cons r rs ih =>
    have hfirst : ∃ made, (r.perform s).2.transport.calls.toList =
        s.transport.calls.toList ++ made ∧
          s.transport.unread = made.flatMap Call.delivered ++ (r.perform s).2.transport.unread := by
      by_cases hp : s.position = .poisoned
      · obtain ⟨report, hx, -⟩ := request_of_poisoned r hp
        rw [hx]
        exact ⟨[], (List.append_nil _).symm, rfl⟩
      · obtain ⟨s₁, hdid, hs₁⟩ := did_request r hp
        rw [hs₁]
        exact hdid.pulls
    obtain ⟨cs, hcalls, hunread⟩ := hfirst
    obtain ⟨ds, hcalls', hunread'⟩ := ih (r.perform s).2
    refine ⟨cs ++ ds, ?_, ?_⟩
    · rw [run_cons, hcalls', hcalls, List.append_assoc]
    · rw [run_cons, hunread, hunread', List.flatMap_append, List.append_assoc]

end

/-! ### Frames -/

namespace Stay

variable {s : FramedStream}

/-- All requests of the run. -/
def requests (v : Stay s) : List Request := v.before ++ [⟨.readHeader, v.patience⟩] ++ v.during

theorem now_eq (v : Stay s) : v.now = (run v.requests s).2 := by
  rw [requests, run_append]
  rfl

/-- The run goes on with requests that do not close the frame. -/
def extend (v : Stay s) (rs : List Request)
    (h : ∀ x ∈ rs.zip (run rs v.now).1, ¬ x.1.operation.closes x.2) : Stay s where
  before := v.before
  patience := v.patience
  header := v.header
  during := v.during ++ rs
  opened := v.opened
  unclosed := by
    rw [zip_run_append, List.forall_mem_append]
    exact ⟨v.unclosed, h⟩

section

variable (v : Stay s) {rs : List Request}
  (h : ∀ x ∈ rs.zip (run rs v.now).1, ¬ x.1.operation.closes x.2)

theorem requests_extend : (v.extend rs h).requests = v.requests ++ rs := by
  simp [requests, extend]

theorem now_extend : (v.extend rs h).now = (run rs v.now).2 := by
  show (run (v.during ++ rs) v.start).2 = (run rs (run v.during v.start).2).2
  rw [run_append]

theorem lost_extend : (v.extend rs h).lost = v.lost + givenUp rs (run rs v.now).1 := by
  show ((v.during ++ rs).zip (run (v.during ++ rs) v.start).1).countP _ = _
  rw [zip_run_append, List.countP_append]
  rfl

end

/-- The bytes that were pulled are those of the calls since the header. -/
theorem pulled_eq (v : Stay s) {made : List Call}
    (h : v.now.transport.calls.toList = v.start.transport.calls.toList ++ made) :
    v.pulled = made.flatMap Call.delivered := by
  unfold pulled Transport.callsSince
  rw [h, ← Array.length_toList, List.drop_left]

/-- What was pulled came off the front of what followed the header. -/
theorem unread_start (v : Stay s) :
    v.start.transport.unread = v.pulled ++ v.now.transport.unread := by
  obtain ⟨made, hcalls, hunread⟩ := run_pulls v.during v.start
  rw [v.pulled_eq hcalls]
  exact hunread

end Stay

theorem run_concat (rs : List Request) (r : Request) (s : FramedStream) :
    run (rs ++ [r]) s =
      ((run rs s).1 ++ [(r.perform (run rs s).2).1], (r.perform (run rs s).2).2) := by
  rw [run_append]
  rfl

/-- The last request of a run that has a frame open has opened it, or the frame was open before and is
not closed. -/
theorem exists_stay_concat {s : FramedStream} (hs : s.transport.Honest) (rs : List Request)
    (r : Request) {remaining : Nat} (h : (run (rs ++ [r]) s).2.position = .inFrame remaining)
    (ih : ∀ owed, (run rs s).2.position = .inFrame owed → ∃ v : Stay s, v.requests = rs) :
    ∃ v : Stay s, v.requests = rs ++ [r] := by
  rw [run_concat] at h
  change (r.perform (run rs s).2).2.position = .inFrame remaining at h
  cases hq : (run rs s).2.position with
  | poisoned =>
    obtain ⟨report, hx, -⟩ := request_of_poisoned r hq
    rw [hx] at h
    cases hq.symm.trans h
  | idle =>
    obtain ⟨s₁, hdid, hs₁⟩ := did_request (s := (run rs s).2) r (by simp [hq])
    rw [hs₁] at h
    obtain ⟨header, hread, hreport⟩ := hdid.opens (honest_run rs hs) hq h
    obtain ⟨operation, patience⟩ := r
    subst hread
    refine ⟨⟨rs, patience, header, [], ?_, List.forall_mem_nil _⟩, List.append_nil _⟩
    rw [run_concat, hreport]
    exact List.getLast?_concat
  | inFrame owed =>
    obtain ⟨v, hv⟩ := ih owed hq
    have hnow : v.now = (run rs s).2 := by rw [v.now_eq, hv]
    have hopen : ∀ x ∈ [r].zip (run [r] v.now).1, ¬ x.1.operation.closes x.2 := by
      rw [hnow]
      intro x hx
      obtain rfl := List.mem_singleton.1 hx
      exact not_closes_of_inFrame (by simp [hq]) h
    refine ⟨v.extend [r] hopen, ?_⟩
    rw [v.requests_extend, hv]

/-- A run that begins between frames and has a frame open has read the header of that frame and not
closed it since. -/
theorem exists_stay {s : FramedStream} (hs : s.transport.Honest) (hp : s.position = .idle)
    (rs : List Request) {remaining : Nat} (h : (run rs s).2.position = .inFrame remaining) :
    ∃ v : Stay s, v.requests = rs := by
  -- the induction takes the requests from the last one backwards
  suffices hback : ∀ (back : List Request) (remaining : Nat),
      (run back.reverse s).2.position = .inFrame remaining →
        ∃ v : Stay s, v.requests = back.reverse by
    rw [← List.reverse_reverse rs] at h ⊢
    exact hback rs.reverse remaining h
  intro back
  induction back with
  | nil =>
    intro remaining h
    cases hp.symm.trans h
  | cons r back ih =>
    intro remaining h
    rw [List.reverse_cons] at h ⊢
    exact exists_stay_concat hs back.reverse r h ih

/-- A read beyond the open frame has pulled what was left of the payload, and what was counted without
being pulled was given up before; nothing that follows changes that. -/
theorem exists_stay_of_crossed {s : FramedStream} (hs : s.transport.Honest) (hp : s.position = .idle)
    (before : List Request) (r : Request) (after : List Request) {f : Failure}
    (hr : (r.perform (run before s).2).1.result = .stopped (.failed f)) (hf : f.crosses) :
    ∃ v : Stay s, v.requests = before ++ r :: after ∧
      v.pulled.length + v.lost = v.header.len := by
  obtain ⟨hpoisoned, last, hcalls, howed⟩ := crossed_request r hr hf (honest_run before hs)
  obtain ⟨v, hv⟩ := exists_stay hs hp before howed
  rw [← hv, ← v.now_eq] at hr hpoisoned hcalls howed
  obtain ⟨⟨patience, hstays⟩, hnone, hkept⟩ := run_of_poisoned after hpoisoned
  have hopen : ∀ x ∈ (r :: after).zip (run (r :: after) v.now).1,
      ¬ x.1.operation.closes x.2 := by
    rw [run_cons, List.zip_cons_cons, List.forall_mem_cons]
    exact ⟨not_closes_of_stopped hr, hnone⟩
  refine ⟨v.extend (r :: after) hopen, by rw [v.requests_extend, hv], ?_⟩
  -- the calls inside the frame are those before the read and those of the read itself
  have hstart : v.start.position = .inFrame v.header.len := v.start_position
  have hopened : v.start.transport.Honest := honest_run _ hs
  obtain ⟨first, hcharged⟩ := charged_run v.during hopened (by simp [hstart]) v.unclosed
  change Charged v.start v.now first v.lost at hcharged
  have hpulled : (v.extend (r :: after) hopen).pulled = (first ++ last).flatMap Call.delivered := by
    apply Stay.pulled_eq
    rw [v.now_extend, run_cons, hstays]
    show (r.perform v.now).2.transport.calls.toList = v.start.transport.calls.toList ++ _
    rw [hcalls, hcharged.calls, List.append_assoc]
  have hlost : (v.extend (r :: after) hopen).lost = v.lost := by
    have hgives : r.operation.givesUp (r.perform v.now).1 = false := by
      simp [Operation.givesUp, hr]
    rw [v.lost_extend, run_cons, givenUp_cons, hgives, hkept]
    rfl
  have hsum := hcharged.remaining hstart howed
  rw [hpulled, hlost, List.flatMap_append, List.length_append]
  show _ = v.header.len
  omega

/-- Poison is final: whatever is asked of a poisoned stream by callers of any patience, it stays
poisoned, no call reaches the transport, so output and unread input stay as they are, and no counter
moves and no event is told. If a run from between frames over an honest transport was poisoned by a
read beyond the open frame, what was pulled since the header and what was given up make up the payload
that the header announced, and what is left to read begins behind the pulled bytes: with the first
byte behind the frame if nothing was given up. -/
theorem poison_is_final {s : FramedStream} (earlier later : List Request)
    (hp : (run earlier s).2.position = .poisoned) :
    let s₁ := (run earlier s).2
    let s₂ := (run (earlier ++ later) s).2
    s₂.position = .poisoned ∧ s₂.transport = s₁.transport ∧ s₂.stats = s₁.stats ∧
      s₂.events = s₁.events ∧
      (s.position = .idle → s.transport.Honest → ∀ report ∈ (run earlier s).1, ∀ asked remaining,
        report.result = .stopped (.failed (.frame (.limitExceeded asked remaining))) →
        ∃ v : Stay s, v.requests = earlier ++ later ∧ v.pulled.length + v.lost = v.header.len ∧
          v.start.transport.unread = v.pulled ++ s₂.transport.unread) := by
  intro s₁ s₂
  obtain ⟨⟨patience, hstays⟩, -⟩ := run_of_poisoned later hp
  have hend : s₂ = { s₁ with patience } := by
    show (run (earlier ++ later) s).2 = _
    rw [run_append]
    exact hstays
  rw [hend]
  refine ⟨hp, rfl, rfl, rfl, ?_⟩
  intro hidle hs report hmem asked remaining hr
  obtain ⟨before, r, after, rfl, rfl⟩ := exists_of_mem_run hmem
  obtain ⟨v, hv, hfull⟩ := exists_stay_of_crossed hs hidle before r (after ++ later) hr rfl
  have hall : v.requests = before ++ r :: after ++ later := by
    rw [hv, List.append_assoc, List.cons_append]
  refine ⟨v, hall, hfull, ?_⟩
  have hnow : v.now = s₂ := by rw [v.now_eq, hall]
  rw [v.unread_start, hnow, hend]

/-- Of a payload of two bytes one is given up, one is pulled and a third is asked for; what is asked
for afterwards, a frame to be written among it, changes nothing. -/
theorem poison_is_final_given_up : ∃ (s : FramedStream) (earlier later : List Request),
    earlier = [⟨.readHeader, none⟩, ⟨.readByte, some 1⟩, ⟨.readByte, none⟩, ⟨.readExact [7], none⟩] ∧
      later = [⟨.flush, some 2⟩, ⟨.writeFrame .data [1], none⟩, ⟨.closeFrame, none⟩] ∧
      (run earlier s).2.position = .poisoned ∧ (run (earlier ++ later) s).2.position = .poisoned ∧
      (run (earlier ++ later) s).2.transport = (run earlier s).2.transport ∧
      (run (earlier ++ later) s).2.transport.unread = [0xbb, 0] ∧
      ∃ v : Stay s, v.requests = earlier ++ later ∧ v.pulled.length + v.lost = v.header.len := by
  let t : Transport := { reads := [.data [0, 2], .pending, .data [0xaa, 0xbb, 0]] }
  let s : FramedStream := ofTransport .suspending .standard t
  let earlier : List Request :=
    [⟨.readHeader, none⟩, ⟨.readByte, some 1⟩, ⟨.readByte, none⟩, ⟨.readExact [7], none⟩]
  let later : List Request := [⟨.flush, some 2⟩, ⟨.writeFrame .data [1], none⟩, ⟨.closeFrame, none⟩]
  have hs : s.transport.Honest := by simp [s, t, ofTransport, Transport.Honest]
  have hp : (run earlier s).2.position = .poisoned := by decide +kernel
  have hmem : (⟨.stopped (.failed (.frame (.limitExceeded 1 0))), some [7]⟩ : Report) ∈
      (run earlier s).1 := by decide +kernel
  have hunread : (run earlier s).2.transport.unread = [0xbb, 0] := by decide +kernel
  obtain ⟨hstays, htransport, -, -, hframe⟩ := poison_is_final earlier later hp
  obtain ⟨v, hv, hfull, -⟩ := hframe rfl hs _ hmem 1 0 rfl
  exact ⟨s, earlier, later, rfl, rfl, hp, hstays, htransport, htransport ▸ hunread, v, hv, hfull⟩

/-- What is left to read does not always begin behind the payload: of a payload of one byte that was
given up and then asked for again, the byte is still to be read. -/
theorem poison_leaves_given_up : ¬ ∀ (s : FramedStream) (v : Stay s), s.position = .idle →
    s.transport.Honest → ∀ report ∈ v.reports, ∀ asked remaining,
      report.result = .stopped (.failed (.frame (.limitExceeded asked remaining))) →
      ∃ payload : List UInt8, payload.length = v.header.len ∧
        v.start.transport.unread = payload ++ v.now.transport.unread := by
  intro h
  let t : Transport := { reads := [.data [0, 1], .pending, .data [0xaa, 0xbb]] }
  let s : FramedStream := ofTransport .suspending .standard t
  let v : Stay s :=
    ⟨[], none, ⟨.data, 1⟩, [⟨.readByte, some 1⟩, ⟨.readByte, none⟩], by decide +kernel,
      by decide +kernel⟩
  have hs : s.transport.Honest := by simp [s, t, ofTransport, Transport.Honest]
  have hmem : (⟨.stopped (.failed (.frame (.limitExceeded 1 0))), none⟩ : Report) ∈ v.reports := by
    decide +kernel
  have hstart : v.start.transport.unread = [0xaa, 0xbb] := by decide +kernel
  have hnow : v.now.transport.unread = [0xaa, 0xbb] := by decide +kernel
  obtain ⟨payload, hlength, hunread⟩ := h s v rfl hs _ hmem 1 0 rfl
  rw [hstart, hnow] at hunread
  have hnone : payload = [] := List.self_eq_append_left.1 hunread
  rw [hnone] at hlength
  cases hlength

/-! ### Refusals -/

/-- On a poisoned stream every operation of a caller of any patience fails as poisoned and changes
nothing, with one exception: a buffer of no bytes is filled. -/
theorem refused_unless_nothing_asked {s : FramedStream} (hp : s.position = .poisoned) (r : Request) :
    ((r.perform s).1.result = .stopped (.failed (.frame .poisoned)) ↔
      r.operation ≠ .readExact []) ∧
    (r.operation = .readExact [] → (r.perform s).1.result = .ok .done) ∧
    (r.perform s).2 = { s with patience := none } := by
  have hempty (ho : r.operation = .readExact []) : (r.perform s).1.result = .ok .done := by
    simp only [Request.perform, ho, Operation.perform, reportExact, readExact_eq]
    rfl
  obtain ⟨report, hx, hreport⟩ := request_of_poisoned r hp
  rw [hx] at hempty ⊢
  refine ⟨⟨fun h ho => ?_, fun ho => ?_⟩, hempty, rfl⟩
  · cases h.symm.trans (hempty ho)
  · rcases hreport with h | ⟨h, -⟩
    · exact h
    · exact absurd h ho

/-- After a header that was cut short, an empty block, an empty write and an integer out of range are
refused alike. -/
theorem refused_unless_nothing_asked_cut : ∃ s : FramedStream,
    s = (run [⟨.readHeader, none⟩] (ofTransport .blocking .standard (.ofBytes [0]))).2 ∧
      s.position = .poisoned ∧
      ∀ o ∈ [.read [], .writeAll [], .writeVarint (2 ^ 62)],
        (Request.perform ⟨o, none⟩ s).1.result = .stopped (.failed (.frame .poisoned)) := by
  let s : FramedStream := (run [⟨.readHeader, none⟩] (ofTransport .blocking .standard (.ofBytes [0]))).2
  have hp : s.position = .poisoned := by decide +kernel
  refine ⟨s, rfl, hp, ?_⟩
  intro o ho
  apply (refused_unless_nothing_asked hp ⟨o, none⟩).1.2
  rintro rfl
  simp at ho

/-- Not every operation is refused on a stream that a run has poisoned. -/
theorem not_always_refused : ¬ ∀ (t : Transport) (rs : List Request) (r : Request),
    (run rs (ofTransport .blocking .standard t)).2.position = .poisoned →
      (r.perform (run rs (ofTransport .blocking .standard t)).2).1.result =
        .stopped (.failed (.frame .poisoned)) := by
  intro h
  have hp : (run [⟨.readHeader, none⟩, ⟨.readByte, none⟩]
      (ofTransport .blocking .standard (.ofBytes [0, 0]))).2.position = .poisoned := by decide +kernel
  have hrefused := h (.ofBytes [0, 0]) [⟨.readHeader, none⟩, ⟨.readByte, none⟩] ⟨.readExact [], none⟩ hp
  revert hrefused
  decide +kernel

end Http3Framing.FramedStream
