import Http3Framing.Proofs.Listening
import Http3Framing.Proofs.Sending

/-! What a write leaves alone and what it puts out, over any transport and for a caller of any
patience. A write makes no read of the transport. What it put out is all of its bytes when it is done,
and it was cut off before the last of them otherwise; a frame can be cut in its header or, once that is
out and counted, in its payload. -/

namespace Http3Framing

open Transport

namespace Stats

/-- Bytes of writes that succeeded and headers among them. -/
def recordSent (s : Stats) (bytes frames : Nat) : Stats :=
  { s with
    bytesWritten := s.bytesWritten + UInt64.ofNat bytes
    framesWritten := s.framesWritten + UInt64.ofNat frames }

@[simp] theorem recordSent_zero (s : Stats) : s.recordSent 0 0 = s := by
  simp [recordSent]

theorem recordWrite_eq (s : Stats) (n : Nat) : s.recordWrite n = s.recordSent n 0 := by
  simp [recordWrite, recordSent]

theorem recordFrameWritten_eq (s : Stats) : s.recordFrameWritten = s.recordSent 0 1 := by
  simp [recordFrameWritten, recordSent]

theorem recordSent_recordSent (s : Stats) (m n j k : Nat) :
    (s.recordSent m j).recordSent n k = s.recordSent (m + n) (j + k) := by
  simp [recordSent, UInt64.ofNat_add, UInt64.add_assoc]

end Stats

namespace Transport

/-- The exchange asks for nothing to read, and a caller that waits is answered. -/
structure Utters {ε α : Type} (patience : Patience) (x : Exchange ε α) : Prop where
  silent : ∀ c ∈ x.calls, c.isRead = false
  waiting : patience = none → x.answer ≠ .dropped ∧ x.patience = none

section

variable {ε α : Type} {patience : Patience} {x : Exchange ε α}

theorem Utters.after {later : Patience} (h : Utters later x) {call : Call}
    (hs : call.isRead = false) (hp : patience = none → later = none) :
    Utters patience (x.after call) := by
  refine ⟨fun c hc => ?_, fun hw => h.waiting (hp hw)⟩
  rcases List.mem_cons.1 hc with rfl | hc
  · exact hs
  · exact h.silent c hc

theorem utters_done {call : Call} {rest : List ε} {a : α} (hs : call.isRead = false) :
    Utters patience ⟨[call], rest, patience, .done a⟩ :=
  ⟨fun _ hc => List.mem_singleton.1 hc ▸ hs, fun hw => ⟨nofun, hw⟩⟩

theorem utters_failed {call : Call} {rest : List ε} {cause : Cause} (hs : call.isRead = false) :
    Utters patience (⟨[call], rest, patience, .failed cause⟩ : Exchange ε α) :=
  ⟨fun _ hc => List.mem_singleton.1 hc ▸ hs, fun hw => ⟨nofun, hw⟩⟩

theorem utters_wait {call : Call} {rest : List ε} {go : Patience → Exchange ε α}
    (hs : call.isRead = false) (h : ∀ later, Utters later (go later)) :
    Utters patience (Exchange.wait call rest patience go) := by
  unfold Exchange.wait
  cases hp : patience.spend with
  | none =>
    refine ⟨fun _ hc => List.mem_singleton.1 hc ▸ hs, ?_⟩
    rintro rfl
    cases hp
  | some later =>
    refine (h later).after hs ?_
    rintro rfl
    exact (Option.some.inj hp).symm

end

theorem utters_writeTo (offered : List UInt8) (events : List WriteEvent) (patience : Patience) :
    Utters patience (writeTo offered events patience) := by
  induction events generalizing patience with
  | nil => exact utters_done rfl
  | cons e events ih =>
    cases e with
    | pending => exact utters_wait rfl ih
    | failure cause => exact utters_failed rfl
    | acceptAll => exact utters_done rfl
    | accept n => exact utters_done rfl

theorem utters_writeAllTo (flavour : Flavour) (events : List WriteEvent) (patience : Patience)
    (left : List UInt8) : Utters patience (writeAllTo flavour events patience left) := by
  induction events generalizing patience left with
  | nil =>
    cases left with
    | nil => exact ⟨nofun, fun hw => ⟨nofun, hw⟩⟩
    | cons b bs => exact utters_done rfl
  | cons e events ih =>
    cases left with
    | nil => exact ⟨nofun, fun hw => ⟨nofun, hw⟩⟩
    | cons b bs =>
      cases e with
      | pending => exact utters_wait rfl fun later => ih later (b :: bs)
      | failure cause =>
        simp only [writeAllTo]
        split
        · exact (ih patience (b :: bs)).after rfl id
        · exact utters_failed rfl
      | acceptAll => exact utters_done rfl
      | accept n =>
        simp only [writeAllTo]
        split
        · exact utters_failed rfl
        · exact (ih patience _).after rfl id

theorem utters_flushOf (events : List FlushEvent) (patience : Patience) :
    Utters patience (flushOf events patience) := by
  induction events generalizing patience with
  | nil => exact utters_done rfl
  | cons e events ih =>
    cases e with
    | pending => exact utters_wait rfl ih
    | failure cause => exact utters_failed rfl
    | finish => exact utters_done rfl

/-- What one write took of the bytes offered to it. -/
def Answer.taken (offered : List UInt8) : Answer Nat → List UInt8
  | done n => offered.take n
  | _ => []

theorem accepted_writeTo (offered : List UInt8) (events : List WriteEvent) (patience : Patience) :
    (writeTo offered events patience).calls.flatMap Call.accepted =
        (writeTo offered events patience).answer.taken offered ∧
      ∀ n, (writeTo offered events patience).answer = .done n → n ≤ offered.length := by
  induction events generalizing patience with
  | nil =>
    refine ⟨List.append_nil _, ?_⟩
    rintro n ⟨⟩
    exact Nat.le_refl _
  | cons e events ih =>
    cases e with
    | pending =>
      simp only [writeTo, Exchange.wait]
      cases patience.spend with
      | none =>
        refine ⟨rfl, ?_⟩
        rintro n ⟨⟩
      | some later => exact ih later
    | failure cause =>
      refine ⟨rfl, ?_⟩
      rintro n ⟨⟩
    | acceptAll =>
      refine ⟨List.append_nil _, ?_⟩
      rintro n ⟨⟩
      exact Nat.le_refl _
    | accept n =>
      refine ⟨List.append_nil _, ?_⟩
      rintro m ⟨⟩
      exact Nat.min_le_right n _

theorem accepted_flushOf (events : List FlushEvent) (patience : Patience) :
    (flushOf events patience).calls.flatMap Call.accepted = [] := by
  induction events generalizing patience with
  | nil => rfl
  | cons e events ih =>
    cases e with
    | pending =>
      simp only [flushOf, Exchange.wait]
      cases patience.spend with
      | none => rfl
      | some later => exact ih later
    | failure cause => rfl
    | finish => rfl

/-- An exchange that accepted all there was to write is done. -/
theorem done_of_accepted {flavour : Flavour} {events : List WriteEvent} {patience : Patience}
    {left : List UInt8}
    (h : (writeAllTo flavour events patience left).calls.flatMap Call.accepted = left) :
    (writeAllTo flavour events patience left).answer = .done () := by
  induction events generalizing patience left with
  | nil => cases left <;> rfl
  | cons e events ih =>
    cases left with
    | nil => rfl
    | cons b bs =>
      cases e with
      | pending =>
        simp only [writeAllTo, Exchange.wait] at h ⊢
        cases hp : patience.spend with
        | none =>
          simp only [hp] at h
          cases h
        | some later =>
          simp only [hp] at h
          exact ih h
      | failure cause =>
        simp only [writeAllTo] at h ⊢
        split at h
        · next hk =>
          rw [if_pos hk]
          exact ih h
        · cases h
      | acceptAll => rfl
      | accept n =>
        simp only [writeAllTo] at h ⊢
        split at h
        · next hn =>
          simp only [List.flatMap_cons, Call.accepted, hn] at h
          cases h
        · next hn =>
          rw [if_neg hn]
          have hsplit : (b :: bs).take (min n (b :: bs).length) ++ _ =
              (b :: bs).take (min n (b :: bs).length) ++ (b :: bs).drop (min n (b :: bs).length) :=
            h.trans (List.take_append_drop _ _).symm
          exact ih (List.append_cancel_left hsplit)

end Transport

/-- Only a number out of range has no encoding. -/
theorem Varint.checked_cases (n : Nat) :
    (∃ v, Varint.checked n = .ok v) ∨ Varint.checked n = .error (.integerTooLarge n) ∧ 2 ^ 62 ≤ n := by
  unfold Varint.checked
  cases h : Varint.ofNat? n with
  | some v => exact .inl ⟨v, rfl⟩
  | none => exact .inr ⟨rfl, Varint.ofNat?_eq_none_iff.1 h⟩

/-- A header is encoded in a byte or more, or one of its fields is out of range. -/
theorem Frame.Header.encode_cases (h : Frame.Header) :
    (∃ bytes, h.encode = .ok bytes ∧ bytes ≠ []) ∨
      ∃ n, h.encode = .error (.integerTooLarge n) ∧ h.excess? = some n := by
  cases hx : h.excess? with
  | some n => exact .inr ⟨n, encode_of_excess hx, rfl⟩
  | none =>
    obtain ⟨kind, len, hb⟩ := encode_of_fits hx
    refine .inl ⟨_, hb, fun hnil => ?_⟩
    have hlength := congrArg List.length (List.append_eq_nil_iff.1 hnil).1
    have hpos := kind.width.size_pos
    rw [Varint.length_encode, List.length_nil] at hlength
    change 0 < kind.size at hpos
    omega

theorem Frame.Header.encode_ne_nil {h : Frame.Header} {bytes : List UInt8}
    (he : h.encode = .ok bytes) : bytes ≠ [] := by
  rcases h.encode_cases with ⟨bytes', hb, hne⟩ | ⟨n, hb, -⟩
  · rw [he] at hb
    cases hb
    exact hne
  · rw [he] at hb
    cases hb

namespace FramedStream

open FramingM

/-- By these calls the stream has only spoken: the reading side, the limits and the flavour are as
before. -/
structure Speaks (s s' : FramedStream) (made : List Call) : Prop where
  calls : s'.transport.calls.toList = s.transport.calls.toList ++ made
  silent : ∀ c ∈ made, c.isRead = false
  reads : s'.transport.reads = s.transport.reads
  chunk : s'.transport.chunk = s.transport.chunk
  waiting : s.patience = none → s'.patience = none
  limits : s'.limits = s.limits
  flavour : s'.flavour = s.flavour

theorem Speaks.trans {s₁ s₂ s₃ : FramedStream} {cs ds : List Call} (h : Speaks s₁ s₂ cs)
    (h' : Speaks s₂ s₃ ds) : Speaks s₁ s₃ (cs ++ ds) where
  calls := by rw [h'.calls, h.calls, List.append_assoc]
  silent c hc := (List.mem_append.1 hc).elim (h.silent c) (h'.silent c)
  reads := h'.reads.trans h.reads
  chunk := h'.chunk.trans h.chunk
  waiting hw := h'.waiting (h.waiting hw)
  limits := h'.limits.trans h.limits
  flavour := h'.flavour.trans h.flavour

/-- A stream that differs only in its position, its counters and its events. -/
theorem Speaks.of_eq {s s' : FramedStream} (ht : s'.transport = s.transport)
    (hp : s'.patience = s.patience) (hl : s'.limits = s.limits) (hf : s'.flavour = s.flavour) :
    Speaks s s' [] where
  calls := by rw [ht, List.append_nil]
  silent := nofun
  reads := by rw [ht]
  chunk := by rw [ht]
  waiting hw := hp.trans hw
  limits := hl
  flavour := hf

theorem Speaks.refl (s : FramedStream) : Speaks s s [] := .of_eq rfl rfl rfl rfl

theorem Speaks.poisonedBy {s s' : FramedStream} {made : List Call} (h : Speaks s s' made)
    (f : Failure) : Speaks s (s'.poisonedBy f) made := by
  have hstep : Speaks s' (s'.poisonedBy f) [] := by
    unfold FramedStream.poisonedBy
    split
    · exact .refl s'
    · exact .of_eq rfl rfl rfl rfl
  simpa using h.trans hstep

theorem Speaks.output {s s' : FramedStream} {made : List Call} (h : Speaks s s' made) :
    s'.transport.output = s.transport.output ++ made.flatMap Call.accepted := by
  unfold Transport.output
  rw [h.calls, List.flatMap_append]

theorem Speaks.delivered {s s' : FramedStream} {made : List Call} (h : Speaks s s' made) :
    s'.transport.delivered = s.transport.delivered := by
  unfold Transport.delivered
  rw [h.calls, List.flatMap_append, Call.flatMap_delivered_of_not_isRead h.silent, List.append_nil]

theorem Speaks.honest {s s' : FramedStream} {made : List Call} (h : Speaks s s' made)
    (hs : s.transport.Honest) : s'.transport.Honest := by
  unfold Transport.Honest
  rw [h.reads]
  exact hs

/-- The exchange of a write is answered, or it fails and poisons the stream, or its caller gives
up. -/
theorem exchange_ends {ε α : Type} {s : FramedStream} (talk : Patience → Transport → Outcome α)
    {x : Exchange ε α} {t : Transport} (hx : talk s.patience s.transport = ⟨x.answer, x.patience, t⟩)
    (hu : Utters s.patience x) (hcalls : t.calls.toList = s.transport.calls.toList ++ x.calls)
    (hreads : t.reads = s.transport.reads) (hchunk : t.chunk = s.transport.chunk) :
    ∃ s', Speaks s s' x.calls ∧
      ((∃ a, exchange talk s = .ok a s' ∧ x.answer = .done a ∧ s'.position = s.position ∧
          s'.stats = s.stats) ∨
        (∃ cause, exchange talk s = .error (.failed (.transport cause)) s' ∧
          x.answer = .failed cause ∧ s'.position = .poisoned ∧ s'.stats = s.stats) ∨
        exchange talk s = .error .dropped s' ∧ x.answer = .dropped ∧ s'.position = s.position ∧
          s.patience ≠ none) := by
  let s₁ : FramedStream := { s with transport := t, patience := x.patience }
  have hspeaks : Speaks s s₁ x.calls :=
    ⟨hcalls, hu.silent, hreads, hchunk, fun hw => (hu.waiting hw).2, rfl, rfl⟩
  cases ha : x.answer with
  | done a =>
    refine ⟨s₁, hspeaks, .inl ⟨a, ?_, rfl, rfl, rfl⟩⟩
    simp only [exchange, hx, ha, s₁]
  | failed cause =>
    let s₂ : FramedStream := { s₁ with events := s₁.events.push (.transportFailed cause) }
    have hspeaks₂ : Speaks s s₂ x.calls :=
      ⟨hcalls, hu.silent, hreads, hchunk, fun hw => (hu.waiting hw).2, rfl, rfl⟩
    have hstats : (s₂.poisonedBy (.transport cause)).stats = s.stats := by
      unfold FramedStream.poisonedBy
      split <;> rfl
    refine ⟨s₂.poisonedBy (.transport cause), hspeaks₂.poisonedBy _, .inr (.inl ⟨cause, ?_, rfl,
      s₂.position_poisonedBy _, hstats⟩)⟩
    simp only [exchange, hx, ha, poison, s₁, s₂]
  | dropped =>
    refine ⟨s₁, hspeaks, .inr (.inr ⟨?_, rfl, rfl, fun hw => (hu.waiting hw).1 ha⟩)⟩
    simp only [exchange, hx, ha, s₁]

/-! ### Actions -/

section Actions

variable {α β : Type} {told told' : α → List UInt8 → Prop} {cut cut' : List UInt8 → List UInt8 → Prop}
  {large large' : Nat → Prop} {frames frames' : Nat} {s s₁ s' : FramedStream} {made : List Call}

/-- How a write from `s` to `s'` by these calls has ended. A value that was handed out was `told` with
the bytes that were put out, all of which are counted. A write that failed was `cut`: the first part
of what it put out is counted, the second is not. A `large` number is refused before anything
happens. -/
inductive Spoken (told : α → List UInt8 → Prop) (cut : List UInt8 → List UInt8 → Prop)
    (large : Nat → Prop) (frames : Nat) (s s' : FramedStream) (made : List Call) :
    Except Stop α → Prop
  | done {a : α} (put : told a (made.flatMap Call.accepted)) (after : s'.position = s.position)
    (stats : s'.stats = s.stats.recordSent (made.flatMap Call.accepted).length frames) :
    Spoken told cut large frames s s' made (.ok a)
  | refused {n : Nat} (tooLarge : large n) (same : s' = s) :
    Spoken told cut large frames s s' made (.error (.failed (.integerTooLarge n)))
  | broken {cause : Cause} {whole part : List UInt8} (put : cut whole part)
    (output : made.flatMap Call.accepted = whole ++ part) (after : s'.position = .poisoned)
    (stats : s'.stats = s.stats.recordSent whole.length (if whole = [] then 0 else 1)) :
    Spoken told cut large frames s s' made (.error (.failed (.transport cause)))
  | dropped (impatient : s.patience ≠ none) (after : s'.position = s.position) :
    Spoken told cut large frames s s' made (.error .dropped)

/-- The result of a write from `s`. -/
def Says (told : α → List UInt8 → Prop) (cut : List UInt8 → List UInt8 → Prop) (large : Nat → Prop)
    (frames : Nat) (s : FramedStream) : EStateM.Result Stop FramedStream α → Prop
  | .ok a s' => ∃ made, Speaks s s' made ∧ Spoken told cut large frames s s' made (.ok a)
  | .error stop s' => ∃ made, Speaks s s' made ∧ Spoken told cut large frames s s' made (.error stop)

/-- Only a part of these bytes, and none of it counted. -/
def Short (bytes whole part : List UInt8) : Prop := whole = [] ∧ part <+: bytes ∧ part ≠ bytes

/-- Nothing at all. -/
def Unsaid (whole part : List UInt8) : Prop := whole = [] ∧ part = []

/-- How a write stopped does not depend on what it would have handed out. -/
theorem Spoken.of_error {told' : β → List UInt8 → Prop} {stop : Stop}
    (h : Spoken told cut large frames s s' made (.error stop))
    (hc : ∀ whole part, cut whole part → cut' whole part) (hl : ∀ n, large n → large' n) :
    Spoken told' cut' large' frames' s s' made (.error stop) := by
  cases h with
  | refused tooLarge same => exact .refused (hl _ tooLarge) same
  | broken put output after stats => exact .broken (hc _ _ put) output after stats
  | dropped impatient after => exact .dropped impatient after

theorem Says.mono {r : EStateM.Result Stop FramedStream α} (h : Says told cut large frames s r)
    (ht : ∀ a out, told a out → told' a out) (hc : ∀ whole part, cut whole part → cut' whole part)
    (hl : ∀ n, large n → large' n) : Says told' cut' large' frames s r := by
  cases r with
  | ok a s' =>
    obtain ⟨made, hs, he⟩ := h
    cases he with
    | done put after stats => exact ⟨made, hs, .done (ht a _ put) after stats⟩
  | error stop s' =>
    obtain ⟨made, hs, he⟩ := h
    exact ⟨made, hs, he.of_error hc hl⟩

/-- A write of one exchange, which counts what was taken when it is done. -/
theorem says_exchange {ε : Type} (talk : Patience → Transport → Outcome α) (taken : α → Nat)
    {f : α → FramingM α} {x : Exchange ε α} {t : Transport}
    (hx : talk s.patience s.transport = ⟨x.answer, x.patience, t⟩) (hu : Utters s.patience x)
    (hcalls : t.calls.toList = s.transport.calls.toList ++ x.calls)
    (hreads : t.reads = s.transport.reads) (hchunk : t.chunk = s.transport.chunk)
    (hf : ∀ a s₁, f a s₁ = .ok a { s₁ with stats := s₁.stats.recordWrite (taken a) })
    (hdone : ∀ a, x.answer = .done a → told a (x.calls.flatMap Call.accepted) ∧
      (x.calls.flatMap Call.accepted).length = taken a)
    (hfailed : ∀ cause, x.answer = .failed cause → cut [] (x.calls.flatMap Call.accepted)) :
    Says told cut (fun _ => False) 0 s ((exchange talk >>= f) s) := by
  obtain ⟨s₁, hspeaks, ⟨a, hy, ha, hp, hstats⟩ | ⟨cause, hy, ha, hp, hstats⟩ |
    ⟨hy, -, hp, himpatient⟩⟩ := exchange_ends talk hx hu hcalls hreads hchunk
  · obtain ⟨htold, hlength⟩ := hdone a ha
    have hmove : Speaks s₁ { s₁ with stats := s₁.stats.recordWrite (taken a) } [] :=
      .of_eq rfl rfl rfl rfl
    rw [bind_of_ok hy, hf]
    refine ⟨x.calls, by simpa using hspeaks.trans hmove, .done htold hp ?_⟩
    rw [hlength, ← hstats, ← Stats.recordWrite_eq]
  · rw [bind_of_error hy]
    refine ⟨x.calls, hspeaks, .broken (hfailed cause ha) rfl hp ?_⟩
    exact hstats.trans (Stats.recordSent_zero _).symm
  · rw [bind_of_error hy]
    exact ⟨x.calls, hspeaks, .dropped himpatient hp⟩

/-- A write that takes what it can puts out the beginning of its bytes, and nothing if it fails. -/
theorem says_write (bytes : List UInt8) (hu : s.position ≠ .poisoned) :
    Says (fun n out => n ≤ bytes.length ∧ out = bytes.take n) Unsaid (fun _ => False) 0 s
      (FramedStream.write bytes s) := by
  obtain ⟨haccepted, hle⟩ := accepted_writeTo bytes s.transport.writes s.patience
  have hrun : FramedStream.write bytes s = (do
      let n ← exchange (Transport.write bytes)
      count (·.recordWrite n)
      return n : FramingM Nat) s := bind_of_ok (ask_usable hu)
  rw [hrun]
  refine says_exchange (Transport.write bytes) id
    (t := { s.transport.record (writeTo bytes s.transport.writes s.patience).calls with
      writes := (writeTo bytes s.transport.writes s.patience).rest })
    rfl (utters_writeTo bytes s.transport.writes s.patience) (by simp [record]) rfl rfl
    (fun _ _ => rfl) (fun n hn => ?_) fun cause hcause => ?_
  · rw [hn] at haccepted
    refine ⟨⟨hle n hn, haccepted⟩, ?_⟩
    rw [haccepted]
    exact List.length_take_of_le (hle n hn)
  · rw [hcause] at haccepted
    exact ⟨rfl, haccepted⟩

theorem says_flush (hu : s.position ≠ .poisoned) :
    Says (fun _ out => out = []) Unsaid (fun _ => False) 0 s (FramedStream.flush s) := by
  have haccepted := accepted_flushOf s.transport.flushes s.patience
  have hrun : FramedStream.flush s = (exchange Transport.flush >>= pure) s := by
    rw [bind_pure]
    exact bind_of_ok (ask_usable hu)
  rw [hrun]
  refine says_exchange Transport.flush (fun _ => 0)
    (t := { s.transport.record (flushOf s.transport.flushes s.patience).calls with
      flushes := (flushOf s.transport.flushes s.patience).rest })
    rfl (utters_flushOf s.transport.flushes s.patience) (by simp [record]) rfl rfl
    (fun _ s₁ => ?_) (fun _ _ => ?_) fun _ _ => ⟨rfl, haccepted⟩
  · rw [Stats.recordWrite_eq, Stats.recordSent_zero]
    rfl
  · rw [haccepted]
    exact ⟨rfl, rfl⟩

theorem says_writeAll (bytes : List UInt8) (hu : s.position ≠ .poisoned) :
    Says (fun _ out => out = bytes) (Short bytes) (fun _ => False) 0 s
      (FramedStream.writeAll bytes s) := by
  have hbegins := accepted_writeAllTo s.flavour s.transport.writes s.patience bytes
  have hrun : FramedStream.writeAll bytes s = (do
      exchange (Transport.writeAll s.flavour bytes)
      count (·.recordWrite bytes.length) : FramingM Unit) s := bind_of_ok (ask_usable hu)
  rw [hrun]
  refine says_exchange (Transport.writeAll s.flavour bytes) (fun _ => bytes.length)
    (t := { s.transport.record
        (writeAllTo s.flavour s.transport.writes s.patience bytes).calls with
      writes := (writeAllTo s.flavour s.transport.writes s.patience bytes).rest })
    rfl (utters_writeAllTo s.flavour s.transport.writes s.patience bytes) (by simp [record]) rfl rfl
    (fun _ _ => rfl) (fun _ hdone => ?_) fun cause hcause => ⟨rfl, hbegins, fun hall => ?_⟩
  · have hall := accepted_of_done hdone
    exact ⟨hall, congrArg List.length hall⟩
  · -- whoever has accepted all of the bytes does not fail
    rw [done_of_accepted hall] at hcause
    cases hcause

theorem says_writeVarint (n : Nat) (hu : s.position ≠ .poisoned) :
    Says (fun _ out => ∃ v, Varint.checked n = .ok v ∧ out = v.encode)
      (fun whole part => ∃ v, Varint.checked n = .ok v ∧ Short v.encode whole part)
      (fun m => m = n ∧ 2 ^ 62 ≤ m) 0 s (FramedStream.writeVarint n s) := by
  unfold FramedStream.writeVarint
  rw [bind_of_ok (ask_usable hu)]
  rcases Varint.checked_cases n with ⟨v, hv⟩ | ⟨hv, hle⟩
  · rw [hv]
    exact (says_writeAll v.encode hu).mono (fun _ _ h => ⟨v, rfl, h⟩) (fun _ _ h => ⟨v, rfl, h⟩)
      fun _ => False.elim
  · rw [hv]
    exact ⟨[], .refl s, .refused ⟨rfl, hle⟩ rfl⟩

/-- A write that is counted as a frame when it is done. -/
theorem Says.countFrame {told : Unit → List UInt8 → Prop} {x : FramingM Unit}
    (h : Says told cut large 0 s (x s)) :
    Says told cut large 1 s ((do x; count Stats.recordFrameWritten : FramingM Unit) s) := by
  rw [bind_apply]
  cases hx : x s with
  | ok a s₁ =>
    rw [hx] at h
    obtain ⟨made, hspeaks, he⟩ := h
    cases he with
    | done put after stats =>
      have hmove : Speaks s₁ { s₁ with stats := s₁.stats.recordFrameWritten } [] :=
        .of_eq rfl rfl rfl rfl
      refine ⟨made, by simpa using hspeaks.trans hmove, .done put after ?_⟩
      change s₁.stats.recordFrameWritten = _
      rw [stats, Stats.recordFrameWritten_eq, Stats.recordSent_recordSent]
      rfl
  | error stop s₁ =>
    rw [hx] at h
    obtain ⟨made, hspeaks, he⟩ := h
    exact ⟨made, hspeaks, he.of_error (fun _ _ h => h) fun _ h => h⟩

/-- A header is counted when it is out. -/
theorem says_writeHeader (header : Frame.Header) (hu : s.position ≠ .poisoned) :
    Says (fun _ out => header.encode = .ok out)
      (fun whole part => ∃ bytes, header.encode = .ok bytes ∧ Short bytes whole part)
      (fun n => header.excess? = some n) 1 s
      (FramedStream.writeHeader header s) := by
  unfold FramedStream.writeHeader
  rw [bind_of_ok (ask_usable hu)]
  rcases header.encode_cases with ⟨bytes, hb, -⟩ | ⟨n, hb, hn⟩
  · rw [hb]
    refine (says_writeAll bytes hu).countFrame.mono ?_ (fun _ _ h => ⟨bytes, rfl, h⟩)
      fun _ => False.elim
    rintro ⟨⟩ out rfl
    rfl
  · rw [hb]
    exact ⟨[], .refl s, .refused hn rfl⟩

/-- A write behind a header that is out and counted; the header is the counted part of what a cut
leaves. -/
theorem Says.behind {header payload : List UInt8} {r : EStateM.Result Stop FramedStream α}
    (hs : Speaks s s₁ made) (hout : made.flatMap Call.accepted = header) (hne : header ≠ [])
    (hp : s₁.position = s.position) (hstats : s₁.stats = s.stats.recordSent header.length 1)
    (h : Says told (Short payload) (fun _ => False) 0 s₁ r) :
    Says (fun a out => ∃ tail, told a tail ∧ out = header ++ tail)
      (fun whole part => whole = header ∧ part <+: payload ∧ part ≠ payload) (fun _ => False) 1 s
      r := by
  cases r with
  | ok a s₂ =>
    obtain ⟨more, hs', he⟩ := h
    cases he with
    | done put after stats =>
      refine ⟨made ++ more, hs.trans hs', .done ⟨_, put, ?_⟩ (after.trans hp) ?_⟩
      · rw [List.flatMap_append, hout]
      · rw [stats, hstats, Stats.recordSent_recordSent, List.flatMap_append, hout,
          List.length_append]
  | error stop s₂ =>
    obtain ⟨more, hs', he⟩ := h
    refine ⟨made ++ more, hs.trans hs', ?_⟩
    cases he with
    | refused tooLarge => exact tooLarge.elim
    | broken put output after stats =>
      obtain ⟨rfl, hbegins, hproper⟩ := put
      refine .broken ⟨rfl, hbegins, hproper⟩ ?_ after ?_
      · rw [List.flatMap_append, hout, output]
        rfl
      · rw [stats, hstats, Stats.recordSent_recordSent, if_neg hne]
        rfl
    | dropped impatient after => exact .dropped (mt hs.waiting impatient) (after.trans hp)

/-- A frame is cut in its header, or in its payload behind a header that is out and counted. -/
theorem says_writeFrame (kind : Frame.Kind) (payload : List UInt8) (hu : s.position ≠ .poisoned) :
    Says (fun _ out => ∃ header, Frame.Header.encode ⟨kind, payload.length⟩ = .ok header ∧
        out = header ++ payload)
      (fun whole part => ∃ header, Frame.Header.encode ⟨kind, payload.length⟩ = .ok header ∧
        (Short header whole part ∨ whole = header ∧ part <+: payload ∧ part ≠ payload))
      (fun n => Frame.Header.excess? ⟨kind, payload.length⟩ = some n) 1 s
      (FramedStream.writeFrame kind payload s) := by
  have hhead := says_writeHeader ⟨kind, payload.length⟩ hu
  unfold FramedStream.writeFrame
  cases hx : FramedStream.writeHeader ⟨kind, payload.length⟩ s with
  | error stop s₁ =>
    rw [hx] at hhead
    obtain ⟨made, hspeaks, he⟩ := hhead
    rw [bind_of_error hx]
    exact ⟨made, hspeaks, he.of_error (fun _ _ ⟨header, hh, h⟩ => ⟨header, hh, .inl h⟩) fun _ h => h⟩
  | ok a s₁ =>
    rw [hx] at hhead
    obtain ⟨made, hspeaks, he⟩ := hhead
    rw [bind_of_ok hx]
    cases he with
    | done put after stats =>
      have hall := says_writeAll payload (s := s₁) (by rw [after]; exact hu)
      refine (hall.behind hspeaks rfl (Frame.Header.encode_ne_nil put) after stats).mono ?_ ?_
        fun _ => False.elim
      · rintro a out ⟨tail, rfl, hout⟩
        exact ⟨_, put, hout⟩
      · exact fun whole part h => ⟨_, put, .inr h⟩

end Actions

end FramedStream

end Http3Framing
