import Http3Framing.Proofs.Account

/-! What a read leaves alone, over any transport and for a caller of any patience. A read makes reads
of the transport and no other calls; what they brought in is what the answer hands over, so a read
that was not answered brought in nothing. Beside the side that is read only the position, the events
and the count of bytes read can change. -/

namespace Http3Framing

open Transport

namespace Stats

@[simp] theorem recordRead_zero (s : Stats) : s.recordRead 0 = s := by
  simp [recordRead]

theorem recordRead_recordRead (s : Stats) (m n : Nat) :
    (s.recordRead m).recordRead n = s.recordRead (m + n) := by
  simp [recordRead, UInt64.ofNat_add, UInt64.add_assoc]

end Stats

namespace Call

/-- The number of bytes that the transport said it brought in. -/
def claimed : Call → Nat
  | read _ (.ready d) => d.count
  | _ => 0

theorem length_delivered_le (c : Call) : c.delivered.length ≤ c.claimed := by
  match c with
  | read _ (.ready (.stored bs)) => exact Nat.le_refl bs.length
  | read _ (.ready (.claimed n)) => exact Nat.zero_le n
  | read _ (.failed _) | read _ .pending | write .. | flush _ => exact Nat.le_refl 0

/-- Calls that claim nothing brought in nothing. -/
theorem flatMap_delivered_of_claimed {cs : List Call} (h : (cs.map claimed).sum = 0) :
    cs.flatMap delivered = [] := by
  rw [List.flatMap_eq_nil_iff]
  intro c hc
  have hzero : c.claimed = 0 := List.sum_eq_zero_iff_forall_eq_nat.1 h _ (List.mem_map_of_mem hc)
  have hle := c.length_delivered_le
  exact List.eq_nil_of_length_eq_zero (by omega)

theorem flatMap_accepted_of_isRead {cs : List Call} (h : ∀ c ∈ cs, c.isRead) :
    cs.flatMap accepted = [] := by
  rw [List.flatMap_eq_nil_iff]
  intro c hc
  have hread := h c hc
  cases c with
  | read => rfl
  | write => cases hread
  | flush => cases hread

end Call

namespace Transport

/-- The bytes that an answer hands over. -/
def Answer.bytes : Answer Delivery → List UInt8
  | done d => d.bytes
  | _ => []

/-- The number of bytes that an answer claims to hand over. -/
def Answer.count : Answer Delivery → Nat
  | done d => d.count
  | _ => 0

/-- The exchange is one read for `want` bytes along these events. -/
structure Replies (want : Nat) (events : List ReadEvent) (patience : Patience)
    (x : Exchange ReadEvent Delivery) : Prop where
  reads : ∀ c ∈ x.calls, c.isRead
  delivered : x.calls.flatMap Call.delivered = x.answer.bytes
  claimed : (x.calls.map Call.claimed).sum = x.answer.count
  honest : (∀ n, .claim n ∉ events) → (∀ n, .claim n ∉ x.rest) ∧
    ∀ d, x.answer = .done d → ∃ bs, d = .stored bs ∧ bs.length ≤ want
  waiting : patience = none → x.answer ≠ .dropped ∧ x.patience = none

/-- An event that is passed over. -/
theorem Replies.behind {want : Nat} {events : List ReadEvent} {patience : Patience}
    {x : Exchange ReadEvent Delivery} (h : Replies want events patience x) (e : ReadEvent) :
    Replies want (e :: events) patience x :=
  ⟨h.reads, h.delivered, h.claimed,
    fun hn => h.honest fun n hmem => hn n (List.mem_cons_of_mem e hmem), h.waiting⟩

/-- A call that is not ready or was interrupted comes before the others and brings in nothing. -/
theorem Replies.after {want : Nat} {events : List ReadEvent} {patience later : Patience}
    {x : Exchange ReadEvent Delivery} (h : Replies want events later x) {call : Call}
    (hread : call.isRead) (hnone : call.claimed = 0) (hp : patience = none → later = none) :
    Replies want events patience (x.after call) := by
  have hle := call.length_delivered_le
  have hempty : call.delivered = [] := List.eq_nil_of_length_eq_zero (by omega)
  refine ⟨?_, ?_, ?_, h.honest, fun hw => h.waiting (hp hw)⟩
  · intro c hc
    rcases List.mem_cons.1 hc with rfl | hc
    · exact hread
    · exact h.reads c hc
  · rw [Exchange.after_calls, List.flatMap_cons, hempty, List.nil_append]
    exact h.delivered
  · rw [Exchange.after_calls, List.map_cons, List.sum_cons, hnone, Nat.zero_add]
    exact h.claimed

/-- Of honest events the later ones are honest. -/
theorem claim_not_mem_of_cons {e : ReadEvent} {events : List ReadEvent}
    (h : ∀ n, .claim n ∉ e :: events) (n : Nat) : .claim n ∉ events :=
  fun hmem => h n (List.mem_cons_of_mem e hmem)

/-- An exchange of one read that brought something in. -/
theorem replies_ready {want : Nat} {events rest : List ReadEvent} {patience : Patience} {d : Delivery}
    (h : (∀ n, .claim n ∉ events) → (∀ n, .claim n ∉ rest) ∧
      ∃ bs, d = .stored bs ∧ bs.length ≤ want) :
    Replies want events patience ⟨[.read want (.ready d)], rest, patience, .done d⟩ where
  reads _ hc := List.mem_singleton.1 hc ▸ rfl
  delivered := List.append_nil _
  claimed := Nat.add_zero _
  honest hn := ⟨(h hn).1, fun _ hd => Answer.done.inj hd ▸ (h hn).2⟩
  waiting hw := ⟨nofun, hw⟩

/-- An exchange of one call that failed. -/
theorem replies_failed {want : Nat} {e : ReadEvent} {events : List ReadEvent} {patience : Patience}
    {call : Call} {cause : Cause} (hread : call.isRead) (hnone : call.claimed = 0) :
    Replies want (e :: events) patience ⟨[call], events, patience, .failed cause⟩ := by
  refine ⟨fun c hc => List.mem_singleton.1 hc ▸ hread, ?_, ?_,
    fun h => ⟨claim_not_mem_of_cons h, nofun⟩, fun h => ⟨nofun, h⟩⟩
  · exact Call.flatMap_delivered_of_claimed (by simp [hnone])
  · simp [hnone, Answer.count]

/-- A caller that meets an event that is not ready gives up or comes back for the later ones. -/
theorem replies_wait {want : Nat} {e : ReadEvent} {events : List ReadEvent} {patience : Patience}
    {call : Call} {go : Patience → Exchange ReadEvent Delivery} (hread : call.isRead)
    (hnone : call.claimed = 0) (h : ∀ later, Replies want events later (go later)) :
    Replies want (e :: events) patience (Exchange.wait call events patience go) := by
  unfold Exchange.wait
  cases hp : patience.spend with
  | none =>
    refine ⟨fun c hc => List.mem_singleton.1 hc ▸ hread, ?_, ?_,
      fun h => ⟨claim_not_mem_of_cons h, nofun⟩, ?_⟩
    · exact Call.flatMap_delivered_of_claimed (by simp [hnone])
    · simp [hnone, Answer.count]
    · rintro rfl
      cases hp
  | some later =>
    refine ((h later).behind e).after hread hnone ?_
    rintro rfl
    exact (Option.some.inj hp).symm

theorem replies_readFrom (chunk : Option Nat) (want : Nat) (events : List ReadEvent)
    (patience : Patience) :
    Replies want events patience (readFrom true chunk want events patience) := by
  induction events generalizing patience with
  | nil => exact replies_ready fun h => ⟨h, [], rfl, Nat.zero_le want⟩
  | cons e events ih =>
    match e with
    | .pending => exact replies_wait rfl rfl ih
    | .failure cause =>
      simp only [readFrom]
      split
      · exact ((ih patience).behind (.failure cause)).after rfl rfl id
      · exact replies_failed rfl rfl
    | .finish => exact replies_ready fun h => ⟨claim_not_mem_of_cons h, [], rfl, Nat.zero_le want⟩
    | .claim n => exact replies_ready fun h => absurd List.mem_cons_self (h n)
    | .data [] => exact (ih patience).behind (.data [])
    | .data (b :: bs) =>
      refine replies_ready fun h => ⟨?_, _, rfl, ?_⟩
      · simpa using h
      · exact Nat.le_trans (List.length_take_le _ _) (portion_le chunk want)

end Transport

namespace FramedStream

open FramingM

/-- By these calls the stream has only listened: the writing side, the limits and the flavour are as
before, and the bytes that were claimed are counted. -/
structure Listens (s s' : FramedStream) (made : List Call) : Prop where
  calls : s'.transport.calls.toList = s.transport.calls.toList ++ made
  reads : ∀ c ∈ made, c.isRead
  unread : s.transport.unread = made.flatMap Call.delivered ++ s'.transport.unread
  honest : s.transport.Honest → s'.transport.Honest ∧
    (made.map Call.claimed).sum = (made.flatMap Call.delivered).length
  waiting : s.patience = none → s'.patience = none
  chunk : s'.transport.chunk = s.transport.chunk
  writes : s'.transport.writes = s.transport.writes
  flushes : s'.transport.flushes = s.transport.flushes
  limits : s'.limits = s.limits
  flavour : s'.flavour = s.flavour
  stats : s'.stats = s.stats.recordRead (made.map Call.claimed).sum

theorem Listens.trans {s₁ s₂ s₃ : FramedStream} {cs ds : List Call} (h : Listens s₁ s₂ cs)
    (h' : Listens s₂ s₃ ds) : Listens s₁ s₃ (cs ++ ds) where
  calls := by rw [h'.calls, h.calls, List.append_assoc]
  reads c hc := (List.mem_append.1 hc).elim (h.reads c) (h'.reads c)
  unread := by rw [h.unread, h'.unread, List.flatMap_append, List.append_assoc]
  honest hs := by
    obtain ⟨hs₂, hcs⟩ := h.honest hs
    obtain ⟨hs₃, hds⟩ := h'.honest hs₂
    refine ⟨hs₃, ?_⟩
    rw [List.map_append, List.sum_append, List.flatMap_append, List.length_append, hcs, hds]
  waiting hs := h'.waiting (h.waiting hs)
  chunk := h'.chunk.trans h.chunk
  writes := h'.writes.trans h.writes
  flushes := h'.flushes.trans h.flushes
  limits := h'.limits.trans h.limits
  flavour := h'.flavour.trans h.flavour
  stats := by
    rw [h'.stats, h.stats, Stats.recordRead_recordRead, List.map_append, List.sum_append]

/-- A stream that differs only in its position and its events. -/
theorem Listens.of_eq {s s' : FramedStream} (ht : s'.transport = s.transport)
    (hp : s'.patience = s.patience) (hl : s'.limits = s.limits) (hf : s'.flavour = s.flavour)
    (hs : s'.stats = s.stats) : Listens s s' [] where
  calls := by rw [ht, List.append_nil]
  reads _ hc := absurd hc List.not_mem_nil
  unread := by rw [ht]; rfl
  honest h := ⟨ht ▸ h, rfl⟩
  waiting h := hp.trans h
  chunk := by rw [ht]
  writes := by rw [ht]
  flushes := by rw [ht]
  limits := hl
  flavour := hf
  stats := hs.trans (Stats.recordRead_zero _).symm

theorem Listens.refl (s : FramedStream) : Listens s s [] := .of_eq rfl rfl rfl rfl rfl

theorem Listens.at {s s' : FramedStream} {made : List Call} (p : Position)
    (h : Listens { s with position := p } s' made) : Listens s s' made :=
  (of_eq rfl rfl rfl rfl rfl : Listens s { s with position := p } []).trans h

theorem listens_poisonedBy (s : FramedStream) (f : Failure) : Listens s (s.poisonedBy f) [] := by
  unfold FramedStream.poisonedBy
  split
  · exact .refl s
  · exact .of_eq rfl rfl rfl rfl rfl

theorem Listens.poisonedBy {s s' : FramedStream} {made : List Call} (h : Listens s s' made)
    (f : Failure) : Listens s (s'.poisonedBy f) made := by
  simpa using h.trans (listens_poisonedBy s' f)

theorem Listens.output {s s' : FramedStream} {made : List Call} (h : Listens s s' made) :
    s'.transport.output = s.transport.output := by
  unfold Transport.output
  rw [h.calls, List.flatMap_append, Call.flatMap_accepted_of_isRead h.reads, List.append_nil]

theorem Listens.delivered {s s' : FramedStream} {made : List Call} (h : Listens s s' made) :
    s'.transport.delivered = s.transport.delivered ++ made.flatMap Call.delivered := by
  unfold Transport.delivered
  rw [h.calls, List.flatMap_append]

/-- The exchange of one read, with what it claimed counted. -/
theorem listens_of_replies {s s' : FramedStream} {want : Nat} {x : Exchange ReadEvent Delivery}
    (h : Replies want s.transport.reads s.patience x)
    (hbytes : x.calls.flatMap Call.delivered ++ x.rest.flatMap ReadEvent.bytes = s.transport.unread)
    (ht : s'.transport = { s.transport.record x.calls with reads := x.rest })
    (hp : s'.patience = x.patience) (hl : s'.limits = s.limits) (hf : s'.flavour = s.flavour)
    (hs : s'.stats = s.stats.recordRead x.answer.count) : Listens s s' x.calls where
  calls := by simp [ht, record]
  reads := h.reads
  unread := by rw [ht]; exact hbytes.symm
  honest hs := by
    obtain ⟨hrest, hanswer⟩ := h.honest hs
    refine ⟨by rw [ht]; exact hrest, ?_⟩
    rw [h.delivered, h.claimed]
    cases ha : x.answer with
    | done d =>
      obtain ⟨bs, rfl, -⟩ := hanswer d ha
      rfl
    | failed => rfl
    | dropped => rfl
  waiting hw := hp.trans (h.waiting hw).2
  chunk := by rw [ht]; rfl
  writes := by rw [ht]; rfl
  flushes := by rw [ht]; rfl
  limits := hl
  flavour := hf
  stats := by rw [hs, h.claimed]

/-- The exchange of the next read for `want` bytes. -/
def nextRead (s : FramedStream) (want : Nat) : Exchange ReadEvent Delivery :=
  readFrom true s.transport.chunk want s.transport.reads s.patience

/-- The stream behind the calls of an exchange of one read. -/
def past (s : FramedStream) (x : Exchange ReadEvent Delivery) : FramedStream :=
  { s with transport := { s.transport.record x.calls with reads := x.rest }, patience := x.patience }

theorem replies_nextRead (s : FramedStream) (want : Nat) :
    Replies want s.transport.reads s.patience (s.nextRead want) :=
  replies_readFrom s.transport.chunk want s.transport.reads s.patience

/-- The answer decides what becomes of a read. -/
theorem readOnce_eq (s : FramedStream) {want : Nat} (hw : 1 ≤ want) :
    readOnce want s =
      match (s.nextRead want).answer with
      | .done d =>
        .ok d { s.past (s.nextRead want) with stats := s.stats.recordRead d.count }
      | .failed cause =>
        .error (.failed (.transport cause)) (FramedStream.poisonedBy
          { s.past (s.nextRead want) with events := s.events.push (.transportFailed cause) }
          (.transport cause))
      | .dropped => .error .dropped (s.past (s.nextRead want)) := by
  simp only [readOnce, bind_apply, exchange, read_eq true hw, nextRead, past]
  generalize readFrom true s.transport.chunk want s.transport.reads s.patience = x
  obtain ⟨calls, rest, patience, answer⟩ := x
  cases answer <;> rfl

/-- Whatever the answer, the reader has listened to the calls of the exchange. -/
theorem listens_nextRead {s s' : FramedStream} (want : Nat)
    (ht : s'.transport = (s.past (s.nextRead want)).transport)
    (hp : s'.patience = (s.nextRead want).patience) (hl : s'.limits = s.limits)
    (hf : s'.flavour = s.flavour)
    (hs : s'.stats = s.stats.recordRead (s.nextRead want).answer.count) :
    Listens s s' (s.nextRead want).calls :=
  listens_of_replies (s.replies_nextRead want)
    (delivered_readFrom true s.transport.chunk want s.transport.reads s.patience) ht hp hl hf hs

/-- One read of the transport is answered, or it fails and poisons the stream, or its caller gives
up. -/
theorem readOnce_ends (s : FramedStream) {want : Nat} (hw : 1 ≤ want) :
    ∃ made,
      (∃ d s', readOnce want s = .ok d s' ∧ Listens s s' made ∧ s'.position = s.position ∧
          made.flatMap Call.delivered = d.bytes ∧ (made.map Call.claimed).sum = d.count ∧
          (s.transport.Honest → ∃ bs, d = .stored bs ∧ bs.length ≤ want)) ∨
        (∃ cause s', readOnce want s = .error (.failed (.transport cause)) s' ∧
          Listens s s' made ∧ s'.position = .poisoned) ∨
        ∃ s', readOnce want s = .error .dropped s' ∧ Listens s s' made ∧
          s'.position = s.position ∧ made.flatMap Call.delivered = [] ∧ s.patience ≠ none := by
  have hx := readOnce_eq s hw
  have hreplies := s.replies_nextRead want
  have hdelivered := hreplies.delivered
  have hclaimed := hreplies.claimed
  refine ⟨(s.nextRead want).calls, ?_⟩
  cases ha : (s.nextRead want).answer with
  | done d =>
    rw [ha] at hx hdelivered hclaimed
    exact .inl ⟨d, _, hx, listens_nextRead want rfl rfl rfl rfl (by rw [ha]; rfl), rfl, hdelivered,
      hclaimed, fun hs => (hreplies.honest hs).2 d ha⟩
  | failed cause =>
    rw [ha] at hx
    let s₁ : FramedStream :=
      { s.past (s.nextRead want) with events := s.events.push (.transportFailed cause) }
    have hlistens : Listens s s₁ (s.nextRead want).calls :=
      listens_nextRead want rfl rfl rfl rfl (by rw [ha]; exact (Stats.recordRead_zero _).symm)
    exact .inr (.inl ⟨cause, _, hx, hlistens.poisonedBy _, s₁.position_poisonedBy _⟩)
  | dropped =>
    rw [ha] at hx hdelivered
    exact .inr (.inr ⟨_, hx,
      listens_nextRead want rfl rfl rfl rfl (by rw [ha]; exact (Stats.recordRead_zero _).symm), rfl,
      hdelivered, fun hs => (hreplies.waiting hs).1 ha⟩)

end FramedStream

end Http3Framing
