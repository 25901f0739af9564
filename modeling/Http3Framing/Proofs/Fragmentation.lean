import Http3Framing.FramedStream.Opening
import Http3Framing.Proofs.Charging
import Http3Framing.Proofs.Filling
import Http3Framing.Proofs.Pairing

/-! Fragmentation does not matter. Two streams over honest transports with the same feed, however it is
cut into data, capped, interrupted or delayed, go side by side: single bytes meet the same symbols, and
buffers are filled as if byte by byte. Only a block that may be short shows where the data was cut. -/

namespace Http3Framing.FramedStream

open FramingM Transport

/-- The transport of a caller that waits is honest, and a read of it delivers something if there is
something: a cap of no bytes would be an end of the stream that is not among the events. -/
structure Flowing (s : FramedStream) : Prop where
  attended : s.Attended
  chunk : s.transport.chunk ≠ some 0

/-- Between requests nothing that a caller sees tells the streams apart, their transports have the same
feed to come and take the same writes. -/
structure SameFeed (s s' : FramedStream) : Prop where
  position : s.position = s'.position
  limits : s.limits = s'.limits
  stats : s.stats = s'.stats
  flavour : s.flavour = s'.flavour
  feed : s.transport.feed = s'.transport.feed
  writes : s.transport.writes = s'.transport.writes
  flushes : s.transport.flushes = s'.transport.flushes
  flowing : s.Flowing
  flowing' : s'.Flowing

instance : FramingM.Pairing SameFeed where
  position h := h.position
  limits h := h.limits
  place _ h := ⟨rfl, h.limits, h.stats, h.flavour, h.feed, h.writes, h.flushes,
    ⟨h.flowing.attended, h.flowing.chunk⟩, ⟨h.flowing'.attended, h.flowing'.chunk⟩⟩
  count {_ _ f} _ h := ⟨h.position, h.limits, congrArg f h.stats, h.flavour, h.feed, h.writes,
    h.flushes, ⟨h.flowing.attended, h.flowing.chunk⟩, ⟨h.flowing'.attended, h.flowing'.chunk⟩⟩
  tell _ _ h := ⟨h.position, h.limits, h.stats, h.flavour, h.feed, h.writes, h.flushes,
    ⟨h.flowing.attended, h.flowing.chunk⟩, ⟨h.flowing'.attended, h.flowing'.chunk⟩⟩

section

variable {s s' s₁ s₁' : FramedStream} {made made' : List Call} {n : Nat}

/-- From `s` to `s'` the stream has read `n` bytes, and beside the reading side it is as before. -/
structure Fed (s s' : FramedStream) (n : Nat) : Prop where
  flowing : s'.Flowing
  writes : s'.transport.writes = s.transport.writes
  flushes : s'.transport.flushes = s.transport.flushes
  limits : s'.limits = s.limits
  flavour : s'.flavour = s.flavour
  stats : s'.stats = s.stats.recordRead n

theorem Listens.fed (h : Listens s s' made) (hs : s.Flowing)
    (hn : (made.flatMap Call.delivered).length = n) : Fed s s' n where
  flowing := ⟨⟨h.waiting hs.attended.1, (h.honest hs.attended.2).1⟩, by rw [h.chunk]; exact hs.chunk⟩
  writes := h.writes
  flushes := h.flushes
  limits := h.limits
  flavour := h.flavour
  stats := by rw [h.stats, (h.honest hs.attended.2).2, hn]

/-- The calls of a stretch are known from what was called before and after it. -/
theorem Listens.made_eq (h : Listens s s' made) (h' : Moves s s' made') : made = made' := by
  have hcalls := h.calls.symm.trans h'.calls
  exact List.append_cancel_left hcalls

/-- After reading the same number of bytes the streams still have the same feed if they have met the same
of it. -/
theorem SameFeed.fed (h : SameFeed s s') (hf : Fed s s₁ n) (hf' : Fed s' s₁' n)
    (hp : s₁.position = s₁'.position) (hfeed : s₁.transport.feed = s₁'.transport.feed) :
    SameFeed s₁ s₁' where
  position := hp
  limits := by rw [hf.limits, hf'.limits, h.limits]
  stats := by rw [hf.stats, hf'.stats, h.stats]
  flavour := by rw [hf.flavour, hf'.flavour, h.flavour]
  feed := hfeed
  writes := by rw [hf.writes, hf'.writes, h.writes]
  flushes := by rw [hf.flushes, hf'.flushes, h.flushes]
  flowing := hf.flowing
  flowing' := hf'.flowing

/-! ### Single bytes -/

/-- One read of a byte, with what it met and what it leaves alone. -/
theorem readOnce_one (hs : s.Flowing) :
    (∃ bs s₁, readOnce 1 s = .ok (.stored bs) s₁ ∧ Fed s s₁ bs.length ∧ s₁.position = s.position ∧
        Meets 1 s.transport.feed (.done (.stored bs)) s₁.transport.feed) ∨
      ∃ cause s₁, readOnce 1 s = .error (.failed (.transport cause)) s₁ ∧ Fed s s₁ 0 ∧
        s₁.position = .poisoned ∧
        Meets 1 s.transport.feed (.failed cause) s₁.transport.feed := by
  obtain ⟨made, hends⟩ := readOnce_ends s (Nat.le_refl 1)
  rcases readOnce_cases hs.attended (Nat.le_refl 1) with
    ⟨bs, s₁, hx, -, hread, hp⟩ | ⟨cause, s₁, hx, hread, hp⟩
  · obtain ⟨made', hmoves, hbytes, -⟩ := hread.moves
    rcases hends with ⟨d, s₂, hy, hl, -⟩ | ⟨cause, s₂, hy, -⟩ | ⟨s₂, hy, -⟩
    · rw [hx] at hy
      cases hy
      obtain rfl := hl.made_eq hmoves
      exact .inl ⟨bs, s₁, hx, hl.fed hs (congrArg List.length hbytes), hp, hread.meets hs.chunk⟩
    · rw [hx] at hy
      cases hy
    · rw [hx] at hy
      cases hy
  · obtain ⟨made', hmoves, hbytes, -⟩ := hread.moves
    rcases hends with ⟨d, s₂, hy, -⟩ | ⟨cause, s₂, hy, hl, -⟩ | ⟨s₂, hy, -⟩
    · rw [hx] at hy
      cases hy
    · rw [hx] at hy
      cases hy
      obtain rfl := hl.made_eq hmoves
      exact .inr ⟨cause, s₁, hx, hl.fed hs (congrArg List.length hbytes), hp, hread.meets hs.chunk⟩
    · rw [hx] at hy
      cases hy

theorem same_readOnce : Steady SameFeed (readOnce 1) := by
  intro s s' h
  have hfeed := h.feed
  rcases readOnce_one h.flowing with ⟨bs, s₁, hx, hf, hp, hm⟩ | ⟨cause, s₁, hx, hf, hp, hm⟩
  · rcases readOnce_one h.flowing' with ⟨bs', s₁', hx', hf', hp', hm'⟩ | ⟨cause, s₁', hx', -, -, hm'⟩
    · rw [← hfeed] at hm'
      obtain ⟨hanswer, hrest⟩ := Meets.unique hm hm'
      cases hanswer
      rw [hx, hx']
      exact .ok rfl (h.fed hf hf' (by rw [hp, hp', h.position]) hrest)
    · rw [← hfeed] at hm'
      cases (Meets.unique hm hm').1
  · rcases readOnce_one h.flowing' with ⟨bs', s₁', hx', -, -, hm'⟩ | ⟨cause', s₁', hx', hf', hp', hm'⟩
    · rw [← hfeed] at hm'
      cases (Meets.unique hm hm').1
    · rw [← hfeed] at hm'
      obtain ⟨hanswer, hrest⟩ := Meets.unique hm hm'
      cases hanswer
      rw [hx, hx']
      exact .error rfl (h.fed hf hf' (by rw [hp, hp']) hrest)

/-! ### Buffers -/

/-- The same bytes, perhaps in other pieces. -/
def SamePieces (ds ds' : List Delivery) : Prop :=
  ∃ pieces pieces' : List (List UInt8), ds = pieces.map .stored ∧ ds' = pieces'.map .stored ∧
    pieces.flatten = pieces'.flatten

theorem SamePieces.append {ds ds' es es' : List Delivery} (h : SamePieces ds ds')
    (h' : SamePieces es es') : SamePieces (ds ++ es) (ds' ++ es') := by
  obtain ⟨ps, ps', rfl, rfl, hp⟩ := h
  obtain ⟨qs, qs', rfl, rfl, hq⟩ := h'
  refine ⟨ps ++ qs, ps' ++ qs', List.map_append.symm, List.map_append.symm, ?_⟩
  rw [List.flatten_append, List.flatten_append, hp, hq]

theorem SamePieces.overlay {ds ds' : List Delivery} (h : SamePieces ds ds') (old : List UInt8) :
    Delivery.overlay ds old = Delivery.overlay ds' old := by
  obtain ⟨ps, ps', rfl, rfl, hp⟩ := h
  rw [Delivery.overlay_stored, Delivery.overlay_stored, hp]

/-- Filling a buffer makes reads only, whether or not the stream is usable. -/
theorem listens_readBlocks (room : Nat) (s : FramedStream) :
    ∃ r s' made, readBlocks room room false s = .ok r s' ∧ Listens s s' made := by
  by_cases hu : s.position = .poisoned
  · cases room with
    | zero => exact ⟨_, s, [], rfl, .refl s⟩
    | succ room =>
      have hx := nextBlock_of_cut false (readBlock_of_poisoned (room + 1) hu)
      exact ⟨_, s, [], readBlocks_of_error (Nat.succ_ne_zero room) hx, .refl s⟩
  · obtain ⟨r, s', made, hx, hl, -⟩ := charges_readBlocks room room false s hu (Nat.le_refl room)
    exact ⟨r, s', made, hx, hl⟩

/-- A buffer is filled as the feed says, and the stream has read what arrived in it. -/
theorem readBlocks_fed (room : Nat) (hs : s.Flowing) :
    ∃ (pieces : List (List UInt8)) (stop : Option Stop) (s₁ : FramedStream),
      readBlocks room room false s = .ok (pieces.map .stored, stop) s₁ ∧
        fill room false s.position s.transport.feed =
          ⟨pieces.flatten, stop, s₁.position, s₁.transport.feed⟩ ∧
        Fed s s₁ pieces.flatten.length := by
  obtain ⟨pieces, stop, s₁, hx, hfill⟩ :=
    readBlocks_fills room room false s hs.attended hs.chunk (Nat.le_refl room)
  refine ⟨pieces, stop, s₁, hx, hfill, ?_⟩
  obtain ⟨r, s₂, made, hy, hl⟩ := listens_readBlocks room s
  have hdraws := draws_readBlocks room room false (Nat.le_refl room) s hs.attended
  rw [hx] at hy hdraws
  cases hy
  obtain ⟨pulled, hadvances, ⟨pieces', hpieces, rfl⟩, -⟩ := hdraws
  obtain ⟨made', hmoves, hbytes, -⟩ := hadvances.moves
  obtain rfl := hl.made_eq hmoves
  obtain rfl : pieces = pieces' := (List.map_inj_right fun _ _ h => Delivery.stored.inj h).1 hpieces
  exact hl.fed hs (congrArg List.length hbytes)

theorem same_readExact (room : Nat) : Matches SameFeed Eq (Blocks SamePieces)
    (FramedStream.readExact room) (FramedStream.readExact room) := by
  intro s s' h
  obtain ⟨ps, stop, s₁, hx, hfill, hf⟩ := readBlocks_fed room h.flowing
  obtain ⟨ps', stop', s₁', hx', hfill', hf'⟩ := readBlocks_fed room h.flowing'
  rw [h.position, h.feed, hfill'] at hfill
  injection hfill with hbytes hstop hp hfeed
  rw [readExact_eq, hx, hx']
  rw [hbytes] at hf'
  exact .ok ⟨⟨ps, ps', rfl, rfl, hbytes.symm⟩, hstop.symm⟩ (h.fed hf hf' hp.symm hfeed.symm)

/-! ### Writing -/

/-- An exchange beside the reading side, decided by what is to be written and flushed. -/
structure Beside {α : Type} (talk : Patience → Transport → Outcome α) : Prop where
  reads (t : Transport) : (talk none t).transport.reads = t.reads
  chunk (t : Transport) : (talk none t).transport.chunk = t.chunk
  patience (t : Transport) : (talk none t).patience = none
  same (t t' : Transport) : t.writes = t'.writes → t.flushes = t'.flushes →
    (talk none t).answer = (talk none t').answer ∧
      (talk none t).transport.writes = (talk none t').transport.writes ∧
      (talk none t).transport.flushes = (talk none t').transport.flushes
  output (t t' : Transport) : t.writes = t'.writes → t.flushes = t'.flushes →
    ∃ out, (talk none t).transport.output = t.output ++ out ∧
      (talk none t').transport.output = t'.output ++ out

theorem beside_write (bytes : List UInt8) : Beside (Transport.write bytes) where
  reads _ := rfl
  chunk _ := rfl
  patience t := (writeTo_waiting bytes t.writes).2.1
  same t t' hw hf := by
    simp only [Transport.write, record, hw, hf, and_self]
  output t t' hw _ := by
    refine ⟨_, output_record t (writeTo bytes t.writes none).calls, ?_⟩
    rw [hw]
    exact output_record t' _

theorem beside_writeAll (flavour : Flavour) (bytes : List UInt8) :
    Beside (Transport.writeAll flavour bytes) where
  reads _ := rfl
  chunk _ := rfl
  patience t := (writeAllTo_waiting flavour t.writes bytes).2.1
  same t t' hw hf := by
    simp only [Transport.writeAll, record, hw, hf, and_self]
  output t t' hw _ := by
    refine ⟨_, output_record t (writeAllTo flavour t.writes none bytes).calls, ?_⟩
    rw [hw]
    exact output_record t' _

theorem beside_flush : Beside Transport.flush where
  reads _ := rfl
  chunk _ := rfl
  patience t := (flushOf_waiting t.flushes).2.1
  same t t' hw hf := by
    simp only [Transport.flush, record, hw, hf, and_self]
  output t t' _ hf := by
    refine ⟨_, output_record t (flushOf t.flushes none).calls, ?_⟩
    rw [hf]
    exact output_record t' _

theorem Beside.flowing {α : Type} {talk : Patience → Transport → Outcome α} (h : Beside talk)
    (hs : s.Flowing) :
    ({ s with
      transport := (talk none s.transport).transport
      patience := (talk none s.transport).patience } : FramedStream).Flowing := by
  refine ⟨⟨h.patience s.transport, ?_⟩, ?_⟩
  · change (talk none s.transport).transport.Honest
    unfold Transport.Honest
    rw [h.reads]
    exact hs.attended.2
  · change (talk none s.transport).transport.chunk ≠ some 0
    rw [h.chunk]
    exact hs.chunk

theorem Beside.steady {α : Type} {talk : Patience → Transport → Outcome α} (h : Beside talk) :
    Steady SameFeed (exchange talk) := by
  apply matches_exchange fun _ => rfl
  intro s s' hs
  rw [hs.flowing.attended.1, hs.flowing'.attended.1]
  obtain ⟨hanswer, hwrites, hflushes⟩ := h.same s.transport s'.transport hs.writes hs.flushes
  have hfeed : (talk none s.transport).transport.feed = (talk none s'.transport).transport.feed := by
    unfold Transport.feed
    rw [h.reads, h.reads]
    exact hs.feed
  exact ⟨.inl hanswer, hs.position, hs.limits, hs.stats, hs.flavour, hfeed, hwrites, hflushes,
    h.flowing hs.flowing, h.flowing hs.flowing'⟩

theorem intakes_sameFeed : Intakes SameFeed SamePieces where
  readOnce := same_readOnce
  readExact := same_readExact
  nil := ⟨[], [], rfl, rfl, rfl⟩
  append _ _ _ _ h h' := h.append h'
  overlay _ _ old h := h.overlay old

theorem outlets_sameFeed : Outlets SameFeed Eq where
  write bytes := (beside_write bytes).steady
  writeAll bytes := by
    apply matches_writeAll fun _ => rfl
    intro s s' hs
    rw [hs.flavour]
    exact (beside_writeAll s'.flavour bytes).steady
  flush := beside_flush.steady

end

/-! ### Runs -/

/-- Over honest transports with the same feed and the same events on the writing side, however the feed
is cut into data, capped, interrupted or delayed, every sequence of operations without a block that may
be short gives the same reports, step by step, and leaves streams in the same position, with the same
counters and the same feed to come. A cap of no bytes is not meant: a read under it meets an end of the
stream where the feed has a byte. -/
theorem fragmentation_irrelevant (flavour : Flavour) (limits : Limits) {t t' : Transport}
    (ht : t.Honest) (ht' : t'.Honest) (hc : t.chunk ≠ some 0) (hc' : t'.chunk ≠ some 0)
    (hfeed : t.feed = t'.feed) (hwrites : t.writes = t'.writes) (hflushes : t.flushes = t'.flushes)
    {os : List Operation} (hos : ∀ buffer, .read buffer ∉ os) (n : Nat) :
    let r := run (unhurried (os.take n)) (ofTransport flavour limits t)
    let r' := run (unhurried (os.take n)) (ofTransport flavour limits t')
    r.1 = r'.1 ∧ r.2.position = r'.2.position ∧ r.2.stats = r'.2.stats ∧
      r.2.transport.feed = r'.2.transport.feed := by
  have hstart : SameFeed (ofTransport flavour limits t) (ofTransport flavour limits t') :=
    ⟨rfl, rfl, rfl, rfl, hfeed, hwrites, hflushes, ⟨⟨rfl, ht⟩, hc⟩, ⟨⟨rfl, ht'⟩, hc'⟩⟩
  have hstep (o : Operation) (ho : o ∈ os.take n) (s s' : FramedStream) (h : SameFeed s s') :
      Together SameFeed Eq (o.perform s) (o.perform s') := by
    refine together_perform intakes_sameFeed outlets_sameFeed (fun _ => rfl) (fun _ => rfl) ?_ h o ?_
    · rintro stop _ rfl
      rfl
    · rintro buffer rfl
      exact absurd (List.mem_of_mem_take ho) (hos buffer)
  obtain ⟨hreports, hm⟩ := paired_run
    (fun _ _ h => ⟨h.flowing.attended.1, h.flowing'.attended.1⟩) hstep hstart
  refine ⟨List.ext_getElem ?_ fun i hi hi' => ?_, hm.position, hm.stats, hm.feed⟩
  · rw [length_run, length_run]
  · exact hreports (_, _) (List.getElem_zip ▸ List.getElem_mem (by simp [length_run] at hi ⊢; omega))

/-- A payload of four bytes that is cut after the third, in one piece and byte by byte. -/
theorem fragmentation_irrelevant_cut : ∃ (t t' : Transport) (os : List Operation),
    t.reads ≠ t'.reads ∧ t.feed = t'.feed ∧ os = [.readHeader, .readByte, .readExact [0, 0, 0]] ∧
      (run (unhurried os) (ofTransport .blocking .standard t)).1 =
        (run (unhurried os) (ofTransport .blocking .standard t')).1 ∧
      (run (unhurried os) (ofTransport .blocking .standard t)).1.getLast? =
        some ⟨.stopped (.failed (.frame (.truncatedFrame 1))), some [2, 3, 0]⟩ := by
  let t : Transport := { reads := [.data [0, 4, 1, 2, 3], .finish] }
  let t' : Transport :=
    { reads := [.data [0], .failure IoKind.interrupted, .data [4, 1], .pending, .data [2, 3], .finish]
      chunk := some 1 }
  let os : List Operation := [.readHeader, .readByte, .readExact [0, 0, 0]]
  have ht : t.Honest := by simp [t, Transport.Honest]
  have ht' : t'.Honest := by simp [t', Transport.Honest]
  have hfeed : t.feed = t'.feed := by decide +kernel
  have hos : ∀ buffer, .read buffer ∉ os := by simp [os]
  obtain ⟨hreports, -⟩ := fragmentation_irrelevant .blocking .standard ht ht' nofun nofun hfeed rfl rfl
    hos 3
  have hlast : (run (unhurried os) (ofTransport .blocking .standard t)).1.getLast? =
      some ⟨.stopped (.failed (.frame (.truncatedFrame 1))), some [2, 3, 0]⟩ := by decide +kernel
  exact ⟨t, t', os, by decide, hfeed, rfl, hreports, hlast⟩

end Http3Framing.FramedStream
