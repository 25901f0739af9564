import Http3Framing.Proofs.Reading

/-! Reading bytes that are followed by the end of the stream, in whatever pieces they arrive. A
stream holds such bytes when its feed begins with them; every reading operation then either takes a
piece off their front or finds that they are too few, and which of the two happens depends on the
bytes alone. -/

namespace Http3Framing

open Transport

namespace Transport

/-- Where the stream is at its end. -/
def Ends : List Symbol → Prop
  | [] | .finish :: _ => True
  | _ => False

/-- An honest transport that delivers these bytes and then the end of the stream, in pieces of any
size, with interruptions and with answers that it is not ready. -/
structure Carries (t : Transport) (bytes : List UInt8) : Prop where
  honest : t.Honest
  chunk : t.chunk ≠ some 0
  feed : ∃ later, t.feed = bytes.map .byte ++ later ∧ Ends later

/-- The script has an event or a byte of weight for every symbol. -/
theorem length_feed_le (t : Transport) : t.feed.length ≤ t.weight := by
  unfold feed weight
  induction t.reads with
  | nil => exact Nat.le_refl 0
  | cons e events ih =>
    have he : e.symbols.length ≤ e.weight := by
      cases e with
      | failure cause =>
        simp only [ReadEvent.symbols, ReadEvent.weight]
        split <;> simp
      | data bytes => simp [ReadEvent.symbols, ReadEvent.weight]
      | _ => simp [ReadEvent.symbols, ReadEvent.weight]
    simp only [List.flatMap_cons, List.length_append, List.map_cons, List.sum_cons]
    omega

theorem Carries.length_le {t : Transport} {bytes : List UInt8} (h : t.Carries bytes) :
    bytes.length ≤ t.weight := by
  obtain ⟨later, hfeed, -⟩ := h.feed
  have hle := t.length_feed_le
  rw [hfeed, List.length_append, List.length_map] at hle
  omega

theorem carries_ofBytes (bytes : List UInt8) : (ofBytes bytes).Carries bytes where
  honest n := by simp [ofBytes]
  chunk := by simp [ofBytes]
  feed := ⟨[], by simp [ofBytes, Transport.feed, ReadEvent.symbols], trivial⟩

variable {want : Nat} {answer : Answer Delivery} {later feed' : List Symbol}

theorem Meets.of_ends (h : Meets want later answer feed') (hl : Ends later) :
    answer = .done (.stored []) := by
  cases h with
  | exhausted => rfl
  | finish => rfl
  | failure => exact hl.elim
  | bytes bs feed ne le =>
    obtain ⟨b, bs, rfl⟩ := List.exists_cons_of_ne_nil ne
    exact hl.elim

/-- Bytes that arrive first are the first of those that are followed by the end. -/
theorem bytes_prefix {bs w : List UInt8} {feed : List Symbol} (hl : Ends later)
    (h : bs.map .byte ++ feed = w.map .byte ++ later) :
    ∃ rest, w = bs ++ rest ∧ feed = rest.map .byte ++ later := by
  induction bs generalizing w with
  | nil => exact ⟨w, rfl, h⟩
  | cons b bs ih =>
    cases w with
    | nil =>
      rw [List.map_nil, List.nil_append] at h
      rw [← h] at hl
      exact hl.elim
    | cons c w =>
      simp only [List.map_cons, List.cons_append, List.cons.injEq, Symbol.byte.injEq] at h
      obtain ⟨rfl, h⟩ := h
      obtain ⟨rest, rfl, hfeed⟩ := ih h
      exact ⟨rest, rfl, hfeed⟩

/-- A read that has bytes in front of it takes some of them. -/
theorem Meets.of_bytes {w : List UInt8} (h : Meets want (w.map .byte ++ later) answer feed')
    (hw : w ≠ []) (hl : Ends later) :
    ∃ bs rest, answer = .done (.stored bs) ∧ bs ≠ [] ∧ bs.length ≤ want ∧ w = bs ++ rest ∧
      feed' = rest.map .byte ++ later := by
  obtain ⟨b, w, rfl⟩ := List.exists_cons_of_ne_nil hw
  generalize hfeed : (b :: w).map Symbol.byte ++ later = feed at h
  cases h with
  | exhausted => cases hfeed
  | finish => cases hfeed
  | failure => cases hfeed
  | bytes bs feed ne le =>
    obtain ⟨rest, hw, hrest⟩ := bytes_prefix hl hfeed.symm
    exact ⟨bs, rest, rfl, ne, le, hw, hrest⟩

end Transport

namespace FramedStream

open FramingM

/-- The stream has these bytes left to read, and then the end of the stream. -/
structure Holds (s : FramedStream) (bytes : List UInt8) : Prop where
  patience : s.patience = none
  carries : s.transport.Carries bytes

theorem Holds.attended {s : FramedStream} {w : List UInt8} (h : s.Holds w) : s.Attended :=
  ⟨h.patience, h.carries.honest⟩

/-- The stream has pulled these bytes and is otherwise used as before. -/
structure Took (s s' : FramedStream) (bytes : List UInt8) : Prop where
  patience : s'.patience = none
  limits : s'.limits = s.limits
  flavour : s'.flavour = s.flavour
  unread : s.transport.unread = bytes ++ s'.transport.unread
  delivered : s'.transport.delivered = s.transport.delivered ++ bytes

theorem Took.refl {s : FramedStream} (h : s.patience = none) : Took s s [] :=
  ⟨h, rfl, rfl, rfl, (List.append_nil _).symm⟩

theorem Holds.took_nil {s : FramedStream} {w : List UInt8} (h : s.Holds w) : Took s s [] :=
  .refl h.patience

theorem Took.trans {s₁ s₂ s₃ : FramedStream} {bs cs : List UInt8} (h : Took s₁ s₂ bs)
    (h' : Took s₂ s₃ cs) : Took s₁ s₃ (bs ++ cs) where
  patience := h'.patience
  limits := h'.limits.trans h.limits
  flavour := h'.flavour.trans h.flavour
  unread := by rw [h.unread, h'.unread, List.append_assoc]
  delivered := by rw [h'.delivered, h.delivered, List.append_assoc]

theorem Took.poisonedBy {s s' : FramedStream} {bs : List UInt8} (h : Took s s' bs)
    (f : Failure) : Took s (s'.poisonedBy f) bs := by
  unfold FramedStream.poisonedBy
  split
  · exact h
  · exact ⟨h.patience, h.limits, h.flavour, h.unread, h.delivered⟩

theorem Reads.took {s s' : FramedStream} {want : Nat} {answer : Answer Delivery}
    {bs : List UInt8} (h : Reads want s s' answer bs) : Took s s' bs := by
  obtain ⟨made, hm, rfl, -⟩ := h.moves
  refine ⟨hm.attended.1, hm.limits, hm.flavour, hm.unread, ?_⟩
  unfold Transport.delivered
  rw [hm.calls, List.flatMap_append]

/-- A read that stored bytes took them off the front. -/
theorem Reads.holds {s s' : FramedStream} {want : Nat} {bs w : List UInt8} (h : s.Holds w)
    (hr : Reads want s s' (.done (.stored bs)) bs) (hbs : bs ≠ []) :
    ∃ rest, w = bs ++ rest ∧ s'.Holds rest := by
  obtain ⟨later, hfeed, hl⟩ := h.carries.feed
  have hmeets := hr.meets h.carries.chunk
  obtain ⟨made, hm, -, -⟩ := hr.moves
  rw [hfeed] at hmeets
  have hchunk : s'.transport.chunk ≠ some 0 := hm.chunk ▸ h.carries.chunk
  by_cases hw : w = []
  · subst hw
    have hnone := hmeets.of_ends hl
    simp only [Answer.done.injEq, Delivery.stored.injEq] at hnone
    exact absurd hnone hbs
  · obtain ⟨bs', rest, ha, -, -, hsplit, hrest⟩ := hmeets.of_bytes hw hl
    simp only [Answer.done.injEq, Delivery.stored.injEq] at ha
    subst ha
    exact ⟨rest, hsplit, hm.attended.1, hm.attended.2, hchunk, later, hrest, hl⟩

/-- A read that stored nothing met the end. -/
theorem Reads.eq_nil {s s' : FramedStream} {want : Nat} {w : List UInt8} (h : s.Holds w)
    (hr : Reads want s s' (.done (.stored [])) []) : w = [] := by
  obtain ⟨later, hfeed, hl⟩ := h.carries.feed
  have hmeets := hr.meets h.carries.chunk
  rw [hfeed] at hmeets
  by_cases hw : w = []
  · exact hw
  · obtain ⟨bs', rest, ha, hne, -⟩ := hmeets.of_bytes hw hl
    simp only [Answer.done.injEq, Delivery.stored.injEq] at ha
    exact absurd ha.symm hne

/-- No read fails. -/
theorem Reads.not_failed {s s' : FramedStream} {want : Nat} {w : List UInt8} {cause : Cause}
    (h : s.Holds w) (hr : Reads want s s' (.failed cause) []) : False := by
  obtain ⟨later, hfeed, hl⟩ := h.carries.feed
  have hmeets := hr.meets h.carries.chunk
  rw [hfeed] at hmeets
  by_cases hw : w = []
  · subst hw
    cases hmeets.of_ends hl
  · obtain ⟨bs', rest, ha, -⟩ := hmeets.of_bytes hw hl
    cases ha

/-! ### Bytes and blocks -/

theorem readByte_of_cons {s : FramedStream} {b : UInt8} {w : List UInt8} {p : Position}
    (h : s.Holds (b :: w)) (hc : s.position.consume 1 = .ok p) :
    ∃ s', FramedStream.readByte s = .ok b s' ∧ Took s s' [b] ∧ s'.Holds w ∧ s'.position = p := by
  rcases readByte_cases h.attended hc with
    ⟨c, s', hx, hr, hp⟩ | ⟨s', hx, hr, hp⟩ | ⟨cause, s', hx, hr, hp⟩
  · obtain ⟨rest, hsplit, hrest⟩ := hr.holds h (List.cons_ne_nil c [])
    cases hsplit
    exact ⟨s', hx, hr.took, hrest, hp⟩
  · cases hr.eq_nil h
  · exact (hr.not_failed h).elim

theorem readByte_of_nil {s : FramedStream} {p : Position} (h : s.Holds [])
    (hc : s.position.consume 1 = .ok p) :
    ∃ s', FramedStream.readByte s = .error (.failed s.position.endFailure) s' ∧ Took s s' [] ∧
      s'.position = s.position.afterEnd := by
  rcases readByte_cases h.attended hc with
    ⟨c, s', hx, hr, hp⟩ | ⟨s', hx, hr, hp⟩ | ⟨cause, s', hx, hr, hp⟩
  · obtain ⟨rest, hsplit, -⟩ := hr.holds h (List.cons_ne_nil c [])
    cases hsplit
  · exact ⟨s', hx, hr.took, hp⟩
  · exact (hr.not_failed h).elim

theorem readBlock_of_bytes {s : FramedStream} {w : List UInt8} (room : Nat) (h : s.Holds w)
    (hw : w ≠ []) (hu : s.position ≠ .poisoned) (hcap : 1 ≤ s.position.cap room) :
    ∃ bs rest s', readBlock room s = .ok (.stored bs) s' ∧ bs ≠ [] ∧
      bs.length ≤ s.position.cap room ∧ w = bs ++ rest ∧ Took s s' bs ∧ s'.Holds rest ∧
      s.position.consume bs.length = .ok s'.position := by
  rcases readBlock_cases h.attended hu hcap with
    ⟨bs, s', hx, hne, hle, hr, hp⟩ | ⟨s', hx, hr, hp⟩ | ⟨cause, s', hx, hr, hp⟩
  · obtain ⟨rest, hsplit, hrest⟩ := hr.holds h hne
    exact ⟨bs, rest, s', hx, hne, hle, hsplit, hr.took, hrest, hp⟩
  · exact absurd (hr.eq_nil h) hw
  · exact (hr.not_failed h).elim

theorem readBlock_of_nil {s : FramedStream} (room : Nat) (h : s.Holds [])
    (hu : s.position ≠ .poisoned) (hcap : 1 ≤ s.position.cap room) :
    ∃ s', readBlock room s = .error (.failed s.position.endFailure) s' ∧ Took s s' [] ∧
      s'.position = s.position.afterEnd := by
  rcases readBlock_cases h.attended hu hcap with
    ⟨bs, s', hx, hne, hle, hr, hp⟩ | ⟨s', hx, hr, hp⟩ | ⟨cause, s', hx, hr, hp⟩
  · obtain ⟨rest, hsplit, -⟩ := hr.holds h hne
    exact absurd (List.append_eq_nil_iff.1 hsplit.symm).1 hne
  · exact ⟨s', hx, hr.took, hp⟩
  · exact (hr.not_failed h).elim

theorem nextBlock_of_ok {s s' : FramedStream} {room : Nat} {d : Delivery} (started : Bool)
    (h : readBlock room s = .ok d s') : nextBlock started room s = .ok d s' := by
  unfold nextBlock
  split
  · exact endBreaks_of_ok _ h
  · exact h

/-- Inside a frame the end of the stream is reported by the frame. -/
theorem nextBlock_of_cut {s s' : FramedStream} {room : Nat} {v : Violation} (started : Bool)
    (h : readBlock room s = .error (.failed (.frame v)) s') :
    nextBlock started room s = .error (.failed (.frame v)) s' := by
  unfold nextBlock
  split
  · exact endBreaks_of_frame _ h
  · exact h

/-- One piece and what the others come to. -/
theorem readBlocks_of_piece {s s₁ s₂ : FramedStream} {piece : List UInt8} {fuel room : Nat}
    {ds : List Delivery} {stop : Option Stop} (started : Bool) (hr : room ≠ 0)
    (hle : piece.length ≤ room) (hx : readBlock room s = .ok (.stored piece) s₁)
    (hy : readBlocks fuel (room - piece.length) true s₁ = .ok (ds, stop) s₂) :
    readBlocks (fuel + 1) room started s = .ok (.stored piece :: ds, stop) s₂ := by
  have hcount : ¬ room < (Delivery.stored piece).count := Nat.not_lt.2 hle
  have hleft : room - (Delivery.stored piece).count = room - piece.length := rfl
  simp only [readBlocks, ite_on, if_neg hr]
  rw [bind_of_ok (attempt_of_ok (nextBlock_of_ok started hx))]
  simp only [if_neg hcount, hleft]
  rw [bind_of_ok hy]
  rfl

/-- Enough bytes fill the room, in some pieces. -/
theorem readBlocks_of_bytes {s : FramedStream} {bs rest : List UInt8} {remaining : Nat}
    (fuel : Nat) (started : Bool) (h : s.Holds (bs ++ rest)) (hp : s.position = .inFrame remaining)
    (hle : bs.length ≤ remaining) (hfuel : bs.length ≤ fuel) :
    ∃ (pieces : List (List UInt8)) (s' : FramedStream),
      readBlocks fuel bs.length started s = .ok (pieces.map .stored, none) s' ∧
        pieces.flatten = bs ∧ Took s s' bs ∧ s'.Holds rest ∧
        s'.position = .inFrame (remaining - bs.length) := by
  induction fuel generalizing s bs remaining started with
  | zero =>
    obtain rfl : bs = [] := List.eq_nil_of_length_eq_zero (by omega)
    exact ⟨[], s, rfl, rfl, h.took_nil, h, hp⟩
  | succ fuel ih =>
    by_cases hbs : bs = []
    · subst hbs
      exact ⟨[], s, rfl, rfl, h.took_nil, h, hp⟩
    · have hpos : 0 < bs.length := List.length_pos_iff.2 hbs
      have hcap : s.position.cap bs.length = bs.length := by
        rw [hp]
        exact Nat.min_eq_left hle
      obtain ⟨piece, left, s₁, hx, hne, hlen, hsplit, htook, hrest, hq⟩ :=
        readBlock_of_bytes bs.length h (by simp [hbs]) (by simp [hp]) (by omega)
      rw [hcap] at hlen
      -- the piece is the first part of what is still missing
      obtain ⟨more, rfl⟩ : piece <+: bs :=
        List.prefix_of_prefix_length_le (hsplit ▸ List.prefix_append piece left)
          (List.prefix_append bs rest) hlen
      obtain rfl : left = more ++ rest := by
        rw [List.append_assoc] at hsplit
        exact (List.append_cancel_left hsplit).symm
      have hpiece : 0 < piece.length := List.length_pos_iff.2 hne
      rw [List.length_append] at hle hfuel
      rw [hp] at hq
      obtain ⟨-, hq⟩ := Position.le_of_consume_inFrame hq
      obtain ⟨pieces, s₂, hy, hflat, htook', hrest', hq'⟩ :=
        ih true hrest hq (by omega) (by omega)
      refine ⟨piece :: pieces, s₂, ?_, by simp [hflat], htook.trans htook', hrest', ?_⟩
      · have hmore : (piece ++ more).length - piece.length = more.length := by simp
        rw [← hmore] at hy
        exact readBlocks_of_piece started (by omega) hlen hx hy
      · rw [hq', List.length_append, Nat.sub_sub]

/-- Too few bytes leave the frame cut short by those that are missing. -/
theorem readBlocks_of_cut {s : FramedStream} {w : List UInt8} {remaining : Nat}
    (fuel room : Nat) (started : Bool) (h : s.Holds w) (hp : s.position = .inFrame remaining)
    (hw : w.length < room) (hle : room ≤ remaining) (hfuel : room ≤ fuel) :
    ∃ (ds : List Delivery) (s' : FramedStream),
      readBlocks fuel room started s =
          .ok (ds, some (.failed (.frame (.truncatedFrame (remaining - w.length))))) s' ∧
        Took s s' w ∧ s'.position = .poisoned := by
  induction fuel generalizing s w room remaining started with
  | zero => omega
  | succ fuel ih =>
    have hroom : room ≠ 0 := by omega
    have hcap : s.position.cap room = room := by
      rw [hp]
      exact Nat.min_eq_left hle
    by_cases hnil : w = []
    · subst hnil
      obtain ⟨s₁, hx, htook, hq⟩ :=
        readBlock_of_nil room h (by simp [hp]) (by omega)
      rw [hp] at hx hq
      refine ⟨[], s₁, ?_, htook, hq⟩
      simp only [readBlocks, ite_on, if_neg hroom]
      rw [bind_of_ok (attempt_of_error (nextBlock_of_cut started hx))]
      rfl
    · obtain ⟨piece, rest, s₁, hx, hne, hlen, rfl, htook, hrest, hq⟩ :=
        readBlock_of_bytes room h hnil (by simp [hp]) (by omega)
      rw [hcap] at hlen
      have hpiece : 0 < piece.length := List.length_pos_iff.2 hne
      rw [List.length_append] at hw
      rw [hp] at hq
      obtain ⟨-, hq⟩ := Position.le_of_consume_inFrame hq
      obtain ⟨ds, s₂, hy, htook', hq'⟩ :=
        ih (room - piece.length) true hrest hq (by omega) (by omega) (by omega)
      rw [Nat.sub_sub, ← List.length_append] at hy
      exact ⟨.stored piece :: ds, s₂, readBlocks_of_piece started hroom hlen hx hy,
        htook.trans htook', hq'⟩

/-! ### Payloads -/

theorem readSteps_of_bytes {s : FramedStream} {bs rest : List UInt8} {remaining : Nat}
    (steps : List Nat) (h : s.Holds (bs ++ rest)) (hp : s.position = .inFrame remaining)
    (hle : bs.length ≤ remaining) (hsum : steps.sum = bs.length) :
    ∃ (pieces : List (List UInt8)) (s' : FramedStream),
      readSteps steps s = .ok (pieces.map .stored) s' ∧ pieces.flatten = bs ∧ Took s s' bs ∧
        s'.Holds rest ∧ s'.position = .inFrame (remaining - bs.length) := by
  induction steps generalizing s bs remaining with
  | nil =>
    obtain rfl : bs = [] := List.eq_nil_of_length_eq_zero hsum.symm
    exact ⟨[], s, rfl, rfl, h.took_nil, h, hp⟩
  | cons step steps ih =>
    rw [List.sum_cons] at hsum
    let first := bs.take step
    let others := bs.drop step
    have hbs : bs = first ++ others := (List.take_append_drop step bs).symm
    have hfirst : first.length = step := by
      simp only [first, List.length_take]
      omega
    have hothers : steps.sum = others.length := by
      simp only [others, List.length_drop]
      omega
    rw [hbs, List.append_assoc] at h
    rw [hbs, List.length_append] at hle
    obtain ⟨pieces, s₁, hx, hflat, htook, hrest, hq⟩ :=
      readBlocks_of_bytes step false h hp (by omega) (by omega)
    obtain ⟨more, s₂, hy, hflat', htook', hrest', hq'⟩ :=
      ih hrest hq (by omega) hothers
    refine ⟨pieces ++ more, s₂, ?_, ?_, ?_, hrest', ?_⟩
    · rw [hfirst] at hx
      simp only [readSteps, readExact_eq]
      rw [bind_of_ok hx]
      simp only
      rw [bind_of_ok hy, List.map_append]
      rfl
    · rw [List.flatten_append, hflat, hflat', ← hbs]
    · rw [hbs]
      exact htook.trans htook'
    · rw [hq', hbs, List.length_append, Nat.sub_sub]

theorem readSteps_of_cut {s : FramedStream} {w : List UInt8} {remaining : Nat} (steps : List Nat)
    (h : s.Holds w) (hp : s.position = .inFrame remaining) (hw : w.length < steps.sum)
    (hle : steps.sum ≤ remaining) :
    ∃ s', readSteps steps s =
        .error (.failed (.frame (.truncatedFrame (remaining - w.length)))) s' ∧
      Took s s' w ∧ s'.position = .poisoned := by
  induction steps generalizing s w remaining with
  | nil => cases hw
  | cons step steps ih =>
    rw [List.sum_cons] at hw hle
    by_cases hstep : w.length < step
    · obtain ⟨ds, s₁, hx, htook, hq⟩ :=
        readBlocks_of_cut step step false h hp hstep (by omega) (Nat.le_refl step)
      refine ⟨s₁, ?_, htook, hq⟩
      simp only [readSteps, readExact_eq]
      rw [bind_of_ok hx]
      rfl
    · let first := w.take step
      let others := w.drop step
      have hfirst : first.length = step := by
        simp only [first, List.length_take]
        omega
      have hw' : w = first ++ others := (List.take_append_drop step w).symm
      rw [hw'] at h
      rw [hw', List.length_append] at hw
      obtain ⟨pieces, s₁, hx, -, htook, hrest, hq⟩ :=
        readBlocks_of_bytes step false h hp (by omega) (by omega)
      obtain ⟨s₂, hy, htook', hq'⟩ := ih hrest hq (by omega) (by omega)
      refine ⟨s₂, ?_, hw' ▸ htook.trans htook', hq'⟩
      rw [hfirst] at hx
      simp only [readSteps, readExact_eq]
      rw [bind_of_ok hx]
      simp only
      rw [bind_of_error hy, hw', List.length_append, Nat.sub_sub]

theorem readPayload_of_inFrame {s : FramedStream} {len : Nat} (hp : s.position = .inFrame len)
    (hle : len ≤ s.limits.maxPayload) :
    FramedStream.readPayload s = (do
      let ds ← readRounds s.limits len len 0
      return Delivery.overlay ds (List.replicate len 0)) s := by
  have hask : ask Position.owed s = .ok len s := ask_of_ok (by rw [hp]; rfl)
  unfold FramedStream.readPayload
  rw [bind_of_ok hask]
  have hnot : ¬ s.limits.maxPayload < len := by omega
  change (if s.limits.maxPayload < len then _ else _ : FramingM (List UInt8)) s = _
  simp only [if_neg hnot]

/-- A payload within the limit is read step by step. -/
theorem readPayload_in_steps {s : FramedStream} {len : Nat} (hp : s.position = .inFrame len)
    (hle : len ≤ s.limits.maxPayload) :
    FramedStream.readPayload s = (do
      let ds ← readSteps (s.limits.steps len)
      return Delivery.overlay ds (List.replicate len 0)) s := by
  rw [readPayload_of_inFrame hp hle, readRounds_steps]

theorem readPayload_of_oversized {s : FramedStream} {len : Nat} (hp : s.position = .inFrame len)
    (hlt : s.limits.maxPayload < len) :
    FramedStream.readPayload s =
      poison (.frame (.payloadTooLarge len s.limits.maxPayload)) s := by
  have hask : ask Position.owed s = .ok len s := ask_of_ok (by rw [hp]; rfl)
  unfold FramedStream.readPayload
  rw [bind_of_ok hask]
  change (if s.limits.maxPayload < len then _ else _ : FramingM (List UInt8)) s = _
  simp only [if_pos hlt]
  exact bind_of_error rfl

/-- A payload above the limit is refused and stays where it is. -/
theorem readPayload_of_lt {s : FramedStream} {w : List UInt8} {len : Nat} (h : s.Holds w)
    (hp : s.position = .inFrame len) (hlt : s.limits.maxPayload < len) :
    ∃ s', FramedStream.readPayload s =
        .error (.failed (.frame (.payloadTooLarge len s.limits.maxPayload))) s' ∧
      Took s s' [] ∧ s'.position = .poisoned := by
  let f : Failure := .frame (.payloadTooLarge len s.limits.maxPayload)
  exact ⟨s.poisonedBy f, readPayload_of_oversized hp hlt, h.took_nil.poisonedBy f,
    s.position_poisonedBy f⟩

theorem readPayload_of_bytes {s : FramedStream} {payload rest : List UInt8}
    (h : s.Holds (payload ++ rest)) (hp : s.position = .inFrame payload.length)
    (hle : payload.length ≤ s.limits.maxPayload) :
    ∃ s', FramedStream.readPayload s = .ok payload s' ∧ Took s s' payload ∧ s'.Holds rest ∧
      s'.position = .inFrame 0 := by
  obtain ⟨pieces, s', hx, hflat, htook, hrest, hq⟩ :=
    readSteps_of_bytes (s.limits.steps payload.length) h hp (Nat.le_refl _) (s.limits.sum_steps _)
  rw [Nat.sub_self] at hq
  refine ⟨s', ?_, htook, hrest, hq⟩
  rw [readPayload_in_steps hp hle, bind_of_ok hx, pure_apply, Delivery.overlay_stored, hflat]
  simp

theorem readPayload_of_cut {s : FramedStream} {w : List UInt8} {len : Nat} (h : s.Holds w)
    (hp : s.position = .inFrame len) (hle : len ≤ s.limits.maxPayload) (hw : w.length < len) :
    ∃ s', FramedStream.readPayload s =
        .error (.failed (.frame (.truncatedFrame (len - w.length)))) s' ∧
      Took s s' w ∧ s'.position = .poisoned := by
  have hsum := s.limits.sum_steps len
  obtain ⟨s', hx, htook, hq⟩ :=
    readSteps_of_cut (s.limits.steps len) h hp (by omega) (by omega)
  refine ⟨s', ?_, htook, hq⟩
  rw [readPayload_in_steps hp hle, bind_of_error hx]

end FramedStream

end Http3Framing
